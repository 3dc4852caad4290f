/-
KDown/LedgerRefusals.lean

What the transfer-memory ledger does when it refuses (`JobLedger::try_reserve`
and `TransferReservation::grow` in io/transfer_ledger.rs).

`try_reserve` charges the component, the job and the controller pool in turn
and never waits.  A guard returns what one pool was charged when a later one
refuses, and is forgotten afterwards.  The component's guard is forgotten
before the controller is asked, so a refusal by the controller leaves the
component charged: `try_reserve_atomic` says that this is the only leak.

`grow` compares the enlarged size with a cap that was remembered when the
reservation was made, but a reservation changes its component.
`grow_oversize_law` says for which growths of which reservations that answer
is the one of the current caps, whatever other reservations do meanwhile.
-/
import KDown.LedgerAdmission

namespace KDown

/-! ### Refusals -/

/-- An atomic allocation exceeds a cap. -/
structure OversizeRefusal where
  component : Component
  requested : ℕ
  cap : ℕ
  deriving DecidableEq, Repr

/-- Why a request is refused. -/
inductive LedgerRefusal
  | oversize (refusal : OversizeRefusal)
  | noCapacity (component : Component)
  deriving DecidableEq, Repr

/-! ### Reserving without waiting -/

/-- The pools of all jobs and the tickets notified so far. -/
structure LedgerPools (ι : Type*) where
  pool : PoolId → Pool ι
  notified : List ι

namespace LedgerPools

variable {ι : Type*}

/-- Pools that hold nothing. -/
def new (cap : PoolId → ℕ) : LedgerPools ι where
  pool := fun p => .new (cap p)
  notified := []

/-- The pool is replaced. -/
def setPool (s : LedgerPools ι) (p : PoolId) (q : Pool ι) : LedgerPools ι :=
  { s with pool := Function.update s.pool p q }

/-- `JobLedger::tightest_cap`. -/
def tightestCap (s : LedgerPools ι) (j : ℕ) (c : Component) : ℕ :=
  KDown.tightestCap (fun p => (s.pool p).cap) j c

/-- Probe one pool for a reservation of `c`.  A pool names the frames in its
refusal. -/
def probe (s : LedgerPools ι) (p : PoolId) (c : Component) (bytes : ℕ) :
    Except LedgerRefusal Unit × LedgerPools ι :=
  match (s.pool p).probeAndAcquire bytes with
  | (.acquired, q) => (.ok (), s.setPool p q)
  | (.oversize, _) => (.error (.oversize ⟨.frames, bytes, (s.pool p).cap⟩), s)
  | (.full, _) => (.error (.noCapacity c), s)

/-- A guard armed with `bytes` is dropped. -/
def rollback (s : LedgerPools ι) (p : PoolId) (bytes : ℕ) : LedgerPools ι :=
  if bytes = 0 then s
  else
    { s.setPool p ((s.pool p).release bytes).2 with
      notified := s.notified ++ ((s.pool p).release bytes).1.toList }

/-- `try_reserve`: the pools are probed one after the other, and a refusal gives
back what the earlier ones have charged. -/
def tryReserve (s : LedgerPools ι) (j : ℕ) (c : Component) (bytes : ℕ) :
    Except LedgerRefusal TransferReservation × LedgerPools ι :=
  if s.tightestCap j c < bytes then (.error (.oversize ⟨c, bytes, s.tightestCap j c⟩), s)
  else
    match s.probe (.component j c) c bytes with
    | (.error refusal, s) => (.error refusal, s)
    | (.ok _, s) =>
        match s.probe (.job j) c bytes with
        | (.error refusal, s) => (.error refusal, s.rollback (.component j c) bytes)
        | (.ok _, s) =>
            -- the component's guard is forgotten here
            match s.probe .controller c bytes with
            | (.error refusal, s) => (.error refusal, s.rollback (.job j) bytes)
            | (.ok _, s) => (.ok ⟨c, bytes, s.tightestCap j c⟩, s)

/-- The fast path of a pool is open and the bytes fit. -/
def Admits (s : LedgerPools ι) (p : PoolId) (bytes : ℕ) : Prop :=
  (s.pool p).waiters = [] ∧ (s.pool p).Fits bytes

/-- What a pool counts. -/
def outstanding (s : LedgerPools ι) (p : PoolId) : ℕ := (s.pool p).outstanding

variable (s : LedgerPools ι) {p p' : PoolId} {c : Component} {bytes : ℕ}

/-- A pool is charged when it admits the bytes, and nothing happens when it
does not. -/
theorem probe_cases (p : PoolId) (c : Component) (hcap : bytes ≤ (s.pool p).cap) :
    (s.Admits p bytes ∧
      s.probe p c bytes = (.ok (), s.setPool p ((s.pool p).charge bytes))) ∨
    (¬ s.Admits p bytes ∧ s.probe p c bytes = (.error (.noCapacity c), s)) := by
  by_cases hwait : (s.pool p).waiters = []
  · by_cases hfits : (s.pool p).Fits bytes
    · refine .inl ⟨⟨hwait, hfits⟩, ?_⟩
      rw [probe, Pool.probeAndAcquire, if_neg (not_lt.mpr hcap), if_neg (not_not.mpr hwait),
        Pool.acquireLocked, if_pos hfits]
    · refine .inr ⟨fun h => hfits h.2, ?_⟩
      rw [probe, Pool.probeAndAcquire, if_neg (not_lt.mpr hcap), if_neg (not_not.mpr hwait),
        Pool.acquireLocked, if_neg hfits]
  · refine .inr ⟨fun h => hwait h.1, ?_⟩
    rw [probe, Pool.probeAndAcquire, if_neg (not_lt.mpr hcap), if_pos hwait]

theorem outstanding_setPool (p : PoolId) (q : Pool ι) :
    (s.setPool p q).outstanding = Function.update s.outstanding p q.outstanding := by
  funext p'
  show (Function.update s.pool p q p').outstanding = _
  rw [Function.update_apply, Function.update_apply]
  split_ifs
  · rfl
  · rfl

/-- A guard returns just what was charged. -/
theorem outstanding_rollback {s : LedgerPools ι} {n : ℕ} (hn : s.outstanding p = n + bytes) :
    (s.rollback p bytes).outstanding = Function.update s.outstanding p n := by
  rw [rollback]
  split_ifs with hzero
  · rw [hzero, Nat.add_zero] at hn
    rw [← hn, Function.update_eq_self]
  · show (s.setPool p ((s.pool p).release bytes).2).outstanding = _
    rw [outstanding_setPool]
    congr 1
    show wrappingSub (s.outstanding p) bytes = n
    rw [wrappingSub, hn, if_pos (Nat.le_add_left _ _), Nat.add_sub_cancel]

/-- A pool that is charged and rolled back counts what it did. -/
theorem outstanding_charge_rollback {s' : LedgerPools ι}
    (h : s'.outstanding = Function.update s.outstanding p (s.outstanding p + bytes)) :
    (s'.rollback p bytes).outstanding = s.outstanding := by
  have hn : s'.outstanding p = s.outstanding p + bytes := by
    rw [h, Function.update_self]
  rw [outstanding_rollback hn, h, Function.update_idem, Function.update_eq_self]

theorem pool_setPool_of_ne (q : Pool ι) (hne : p' ≠ p) : (s.setPool p q).pool p' = s.pool p' :=
  Function.update_of_ne hne ..

/-- The controller is asked last: the request is within the caps and the
component and the job admit it. -/
def ReachesController (s : LedgerPools ι) (j : ℕ) (c : Component) (bytes : ℕ) : Prop :=
  bytes ≤ s.tightestCap j c ∧ s.Admits (.component j c) bytes ∧ s.Admits (.job j) bytes

/-- **The three ends of `try_reserve`**: before the controller is asked, refused
by it, and granted. -/
theorem tryReserve_spec (j : ℕ) (c : Component) (bytes : ℕ) :
    (¬ s.ReachesController j c bytes ∧ (∃ e, (s.tryReserve j c bytes).1 = .error e) ∧
        (s.tryReserve j c bytes).2.outstanding = s.outstanding) ∨
    (s.ReachesController j c bytes ∧ ¬ s.Admits .controller bytes ∧
        (∃ e, (s.tryReserve j c bytes).1 = .error e) ∧
        (s.tryReserve j c bytes).2.outstanding = Function.update s.outstanding (.component j c)
          (s.outstanding (.component j c) + bytes)) ∨
    (s.ReachesController j c bytes ∧ s.Admits .controller bytes ∧
        ∃ r, (s.tryReserve j c bytes).1 = .ok r) := by
  by_cases hcap : s.tightestCap j c < bytes
  · refine .inl ⟨fun h => absurd h.1 (not_le.mpr hcap), ?_, ?_⟩
    · exact ⟨_, by rw [tryReserve, if_pos hcap]⟩
    · rw [tryReserve, if_pos hcap]
  have hle := not_lt.mp hcap
  have hcomponent : bytes ≤ (s.pool (.component j c)).cap :=
    hle.trans ((min_le_left _ _).trans (min_le_left _ _))
  have hjob : bytes ≤ (s.pool (.job j)).cap :=
    hle.trans ((min_le_left _ _).trans (min_le_right _ _))
  have hcontroller : bytes ≤ (s.pool .controller).cap := hle.trans (min_le_right _ _)
  rw [tryReserve, if_neg hcap]
  rcases s.probe_cases (.component j c) c hcomponent with ⟨ha, he⟩ | ⟨hno, he⟩
  · generalize hs₁ : s.setPool (.component j c) ((s.pool (.component j c)).charge bytes) = s₁ at he
    have hjob₁ : s₁.pool (.job j) = s.pool (.job j) := by
      rw [← hs₁]
      exact pool_setPool_of_ne s _ PoolId.noConfusion
    have hout₁ : s₁.outstanding = Function.update s.outstanding (.component j c)
        (s.outstanding (.component j c) + bytes) := by
      rw [← hs₁, outstanding_setPool]
      rfl
    have hadm₁ : s₁.Admits (.job j) bytes ↔ s.Admits (.job j) bytes := by
      rw [Admits, Admits, hjob₁]
    simp only [he]
    rcases s₁.probe_cases (.job j) c (hjob₁ ▸ hjob) with ⟨hb, he₁⟩ | ⟨hno, he₁⟩
    · generalize hs₂ : s₁.setPool (.job j) ((s₁.pool (.job j)).charge bytes) = s₂ at he₁
      have hcontroller₂ : s₂.pool .controller = s.pool .controller := by
        rw [← hs₂, pool_setPool_of_ne s₁ _ PoolId.noConfusion, ← hs₁]
        exact pool_setPool_of_ne s _ PoolId.noConfusion
      have hadm₂ : s₂.Admits .controller bytes ↔ s.Admits .controller bytes := by
        rw [Admits, Admits, hcontroller₂]
      have hout₂ : s₂.outstanding = Function.update s₁.outstanding (.job j)
          (s₁.outstanding (.job j) + bytes) := by
        rw [← hs₂, outstanding_setPool]
        rfl
      have hreach : s.ReachesController j c bytes := ⟨hle, ha, hadm₁.mp hb⟩
      simp only [he₁]
      rcases s₂.probe_cases .controller c (hcontroller₂ ▸ hcontroller) with ⟨hc, he₂⟩ | ⟨hno, he₂⟩
      · simp only [he₂]
        exact .inr (.inr ⟨hreach, hadm₂.mp hc, _, rfl⟩)
      · -- only the job's guard is still armed
        simp only [he₂]
        refine .inr (.inl ⟨hreach, fun h => hno (hadm₂.mpr h), ⟨_, rfl⟩, ?_⟩)
        rw [s₁.outstanding_charge_rollback hout₂, hout₁]
    · simp only [he₁]
      refine .inl ⟨fun h => hno (hadm₁.mpr h.2.2), ⟨_, rfl⟩, ?_⟩
      exact s.outstanding_charge_rollback hout₁
  · simp only [he]
    exact .inl ⟨fun h => hno h.2.1, ⟨_, rfl⟩, trivial⟩

/-- **`try_reserve` is atomic.**  For every state of the pools and every
request: a refusal leaves what every pool counts as it was, except when the
request is not empty and the controller is the only pool that does not admit it. -/
theorem try_reserve_atomic (j : ℕ) (c : Component) (bytes : ℕ) :
    (∀ e, (s.tryReserve j c bytes).1 = .error e →
        ∀ p, (s.tryReserve j c bytes).2.outstanding p = s.outstanding p) ↔
      ¬ (0 < bytes ∧ s.ReachesController j c bytes ∧ ¬ s.Admits .controller bytes) := by
  rcases s.tryReserve_spec j c bytes with ⟨hno, -, hout⟩ | ⟨hreach, hno, ⟨e, he⟩, hout⟩ |
    ⟨-, hadm, r, hr⟩
  · refine iff_of_true (fun _ _ p => congrFun hout p) fun h => hno h.2.1
  · constructor
    · rintro hsame ⟨hpos, -, -⟩
      have hc := hsame e he (.component j c)
      rw [hout, Function.update_self] at hc
      omega
    · intro hsafe _ _ p
      have hzero : bytes = 0 := by
        by_contra hne
        exact hsafe ⟨Nat.pos_of_ne_zero hne, hreach, hno⟩
      rw [hout, hzero, Nat.add_zero, Function.update_eq_self]
  · refine iff_of_true (fun e he => ?_) fun h => h.2.2 hadm
    rw [hr] at he
    cases he

/-- Two jobs whose caps together exceed the engine's. -/
def sharedPools : LedgerPools ℕ := .new fun _ => 100

/-- The second of two jobs is refused by the controller, and its frames stay
charged. -/
theorem controller_refusal_leaks :
    ¬ ∀ (s : LedgerPools ℕ) (j : ℕ) (c : Component) (bytes : ℕ) (e : LedgerRefusal),
      (s.tryReserve j c bytes).1 = .error e →
        ∀ p, (s.tryReserve j c bytes).2.outstanding p = s.outstanding p := by
  intro hall
  have hsame := hall (sharedPools.tryReserve 0 .frames 60).2 1 .frames 60 (.noCapacity .frames) rfl
    (.component 1 .frames)
  exact absurd hsame (by decide)

end LedgerPools

/-! ### The first steps of a call -/

namespace PoolSystem

variable {ι : Type*} [DecidableEq ι] {q q' : PoolSystem ι} {i : ι}

/-- A call is refused only by its probe, for asking more than the cap. -/
theorem refused_of_next (hq : q.next i (q.phases i) = some q') (href : q'.phases i = .refused) :
    q.phases i = .probing ∧ q.pool.cap < (q.call i).bytes := by
  rcases hph : q.phases i with - | - | - | - | - | ok | ⟨ok, head⟩ | - | - | - | - | head | - <;>
    rw [hph] at hq
  · cases hq
  · refine ⟨rfl, ?_⟩
    by_contra hle
    simp only [PoolSystem.next, Pool.probeAndAcquire, if_neg hle, Pool.acquireLocked] at hq
    split_ifs at hq <;> rw [← Option.some.inj hq, phases_setPhase, Function.update_self] at href <;>
      cases href
  · rw [← Option.some.inj hq, phases_setPhase, Function.update_self] at href
    cases href
  · simp only [PoolSystem.next] at hq
    split at hq <;> rw [← Option.some.inj hq, phases_setPhase, Function.update_self] at href <;>
      cases href
  · simp only [PoolSystem.next] at hq
    split at hq
    · rw [← Option.some.inj hq, phases_setPhase, Function.update_self] at href
      cases href
    · cases hq
  · rw [← Option.some.inj hq, phases_setPhase, Function.update_self] at href
    cases href
  · rw [← Option.some.inj hq, phases_notifyOne, phases_setPhase, Function.update_self] at href
    rcases ok with - | - <;> cases href
  · cases hq
  · cases hq
  · cases hq
  · simp only [PoolSystem.next] at hq
    split at hq <;> rw [← Option.some.inj hq, phases_setPhase, Function.update_self] at href <;>
      cases href
  · rw [← Option.some.inj hq, phases_notifyOne, phases_setPhase, Function.update_self] at href
    cases href
  · cases hq

/-- The probe of a call is answered at once. -/
theorem next_probing (hph : q.phases i = .probing) :
    ∃ q', q.next i (q.phases i) = some q' ∧
      (q'.phases i = .refused ∨ q'.phases i = .acquired ∨ q'.phases i = .registering) := by
  rw [hph]
  simp only [PoolSystem.next]
  split
  · exact ⟨_, rfl, .inr (.inl (by rw [phases_setPhase, Function.update_self]))⟩
  · exact ⟨_, rfl, .inl (by rw [phases_setPhase, Function.update_self])⟩
  · exact ⟨_, rfl, .inr (.inr (by rw [phases_setPhase, Function.update_self]))⟩

theorem refused_of_oversize (hph : q.phases i = .probing) (hover : q.pool.cap < (q.call i).bytes)
    (hq : q.next i (q.phases i) = some q') : q'.phases i = .refused := by
  rw [hph] at hq
  simp only [PoolSystem.next, Pool.probeAndAcquire, if_pos hover] at hq
  rw [← Option.some.inj hq, phases_setPhase, Function.update_self]

end PoolSystem

/-! ### Growing a reservation -/

namespace TransferLedger

variable {cap : PoolId → ℕ} {s s' : TransferLedger} {k : ℕ} {r : TransferReservation} {extra : ℕ}

/-- The refusal that `grow` returns before it asks any pool. -/
def growRefusal (r : TransferReservation) (extra : ℕ) : Option LedgerRefusal :=
  if extra = 0 then none
  else if r.tightestCap < (r.bytes + extra) % 2 ^ 64 then
    some (.oversize ⟨r.component, (r.bytes + extra) % 2 ^ 64, r.tightestCap⟩)
  else none

/-- A growth of `r` is in progress. -/
def Growing (s : TransferLedger) (k : ℕ) (r : TransferReservation) (extra : ℕ) : Prop :=
  (s.handle k).live = some r ∧
    ∃ taken todo call, (s.handle k).work = .acquiring .grow extra taken todo call

/-- The current call of the handle was refused by its pool. -/
def PoolRefuses (s : TransferLedger) (k : ℕ) : Prop :=
  ∃ p m, (s.handle k).work.current = some (p, m) ∧ (s.pool p).phases (k, m) = .refused

/-- The current call of the handle found its pool full and waits. -/
def Waits (s : TransferLedger) (k : ℕ) : Prop :=
  ∃ p m, (s.handle k).work.current = some (p, m) ∧
    ((s.pool p).phases (k, m) = .registering ∨ ((s.pool p).phases (k, m)).isOpen = true)

/-- The states of a growth that begins in `s`, until it is over.  All other
handles may take their steps in between. -/
def Attempt (cap : PoolId → ℕ) (s : TransferLedger) (k : ℕ) (r : TransferReservation)
    (extra : ℕ) : TransferLedger → Prop :=
  Reach (step cap) (fun t _ => t.Growing k r extra) (· = s.grow k extra r)

/-- `grow` returns the refusal of an oversize request, at once or from a
pool. -/
def GrowOversize (cap : PoolId → ℕ) (s : TransferLedger) (k : ℕ) (r : TransferReservation)
    (extra : ℕ) : Prop :=
  (growRefusal r extra).isSome = true ∨
    ∃ t, s.Attempt cap k r extra t ∧ t.Growing k r extra ∧ t.PoolRefuses k

/-- What a growth should do. -/
structure GrowLaw (cap : PoolId → ℕ) (s : TransferLedger) (k : ℕ) (r : TransferReservation)
    (extra : ℕ) : Prop where
  oversize : s.GrowOversize cap k r extra ↔
    KDown.tightestCap cap (s.handle k).job r.component < r.bytes + extra
  /-- What can never be admitted is not waited for, and leaves the reservation
  and its charge on every pool as they are. -/
  excluded : KDown.tightestCap cap (s.handle k).job r.component < r.bytes + extra →
    ∀ t, s.Attempt cap k r extra t →
      ¬ t.Waits k ∧ (t.handle k).live = some r ∧ ∀ p, t.charge k p = s.charge k p

/-- The remembered cap answers like the current ones: a size that they admit is
within it, and one that they exclude is above it unless the component's pool
excludes the growth alone. -/
structure RemembersCap (cap : PoolId → ℕ) (j : ℕ) (r : TransferReservation) (extra : ℕ) :
    Prop where
  admits : extra ≠ 0 → r.bytes + extra ≤ KDown.tightestCap cap j r.component →
    (r.bytes + extra) % 2 ^ 64 ≤ r.tightestCap
  excludes : KDown.tightestCap cap j r.component < r.bytes + extra →
    extra ≤ cap (.component j r.component) → r.tightestCap < (r.bytes + extra) % 2 ^ 64

theorem isSome_growRefusal :
    (growRefusal r extra).isSome = true ↔
      extra ≠ 0 ∧ r.tightestCap < (r.bytes + extra) % 2 ^ 64 := by
  rw [growRefusal]
  split_ifs with hzero hover
  · exact iff_of_false Bool.false_ne_true fun h => h.1 hzero
  · exact iff_of_true rfl ⟨hzero, hover⟩
  · exact iff_of_false Bool.false_ne_true fun h => hover h.2

theorem grow_of_refusal (h : (growRefusal r extra).isSome = true) : s.grow k extra r = s := by
  rw [growRefusal] at h
  rw [grow]
  split_ifs at h ⊢
  · cases h
  · rfl
  · cases h

/-- Without a refusal the growth asks the component first. -/
theorem grow_of_no_refusal (hpos : extra ≠ 0) (h : (growRefusal r extra).isSome = false) :
    s.grow k extra r = s.setWork k
      (.acquiring .grow extra [] (PoolId.links (s.handle k).job r.component) none) := by
  rw [growRefusal, if_neg hpos] at h
  rw [grow, if_neg hpos]
  split_ifs at h ⊢
  · cases h
  · rfl

/-- Nothing happens to a busy handle but steps of its operation. -/
theorem busy_step (hi : LedgerInv cap s) (hbusy : (s.handle k).work ≠ .idle) {e : LedgerEvent}
    (hs : s.step cap e = some s') :
    SameHandle s s' k ∨ s.advance cap k (s.handle k).work = some s' ∨
      s.cancel k (s.handle k).work = some s' := by
  have hnot : ∀ {f : TransferReservation → TransferLedger}, s.onLive k f ≠ some s' := by
    intro f hf
    obtain ⟨-, -, hidle, -⟩ := onLive_cases hf
    exact hbusy hidle
  by_cases hk : k = s.subject e
  · rcases e with ⟨j, c, bytes⟩ | ⟨i, n⟩ | ⟨i, n⟩ | ⟨i, n⟩ | ⟨i, dst⟩ | i | i | i
    · exact absurd (hk : k = s.size) (hi.lt_size hbusy).ne
    · obtain rfl : k = i := hk
      exact absurd hs hnot
    · obtain rfl : k = i := hk
      exact absurd hs hnot
    · obtain rfl : k = i := hk
      exact absurd hs hnot
    · obtain rfl : k = i := hk
      exact absurd hs hnot
    · obtain rfl : k = i := hk
      exact absurd hs hnot
    · obtain rfl : k = i := hk
      exact .inr (.inl hs)
    · obtain rfl : k = i := hk
      exact .inr (.inr hs)
  · exact .inl ((handleStep_of_step hi hs).same k hk)

theorem le_cap_of_mem_links {j : ℕ} {c : Component} {p : PoolId} (hp : p ∈ PoolId.links j c) :
    KDown.tightestCap cap j c ≤ cap p := by
  rcases List.mem_cons.mp hp with rfl | hp
  · exact (min_le_left _ _).trans (min_le_left _ _)
  · rcases List.mem_cons.mp hp with rfl | hp
    · exact (min_le_left _ _).trans (min_le_right _ _)
    · rw [List.mem_singleton.mp hp]
      exact min_le_right _ _

/-- What a reservation at rest holds is within the caps. -/
theorem LedgerInv.bytes_le (hi : LedgerInv cap s) (hlive : (s.handle k).live = some r)
    (hidle : (s.handle k).work = .idle) :
    r.bytes ≤ KDown.tightestCap cap (s.handle k).job r.component := by
  have hpool : ∀ p ∈ PoolId.links (s.handle k).job r.component, r.bytes ≤ cap p := by
    intro p hp
    have hcharge := charge_live hlive hidle p
    rw [count_links, if_pos hp, mul_one] at hcharge
    calc r.bytes = s.charge k p := hcharge.symm
      _ ≤ (s.pool p).pool.outstanding := hi.charge_le (hi.lt_size_of_live hlive) p
      _ ≤ (s.pool p).pool.cap := hi.le_cap p
      _ = cap p := hi.caps p
  refine le_min (le_min (hpool _ ?_) (hpool _ ?_)) (hpool _ ?_) <;> simp [PoolId.links]

/-! ### Whose refusal it is -/

/-- In an attempt the reservation's job stays, and a pool that refused has a
cap below the growth itself. -/
structure Attempting (cap : PoolId → ℕ) (j k : ℕ) (r : TransferReservation) (extra : ℕ)
    (t : TransferLedger) : Prop where
  inv : LedgerInv cap t
  job : (t.handle k).job = j
  refusals : t.Growing k r extra → ∀ p m, (t.handle k).work.current = some (p, m) →
    (t.pool p).phases (k, m) = .refused → p ∈ PoolId.links j r.component ∧ cap p < extra

theorem acquired_job (n : ℕ) (goal : AcquireGoal) :
    ((s.acquired cap k n goal).handle k).job = (s.handle k).job := by
  rcases goal with c | - | dst
  · rw [acquired, handle_setHandle_self]
  · rw [acquired, handle_setHandle_self]
  · rw [acquired]
    split
    · rw [setWork, handle_setHandle_self]
    · rw [handle_setHandle_self]

/-- A call that has only begun is probing. -/
theorem probing_of_startCall {p : PoolId} {n : ℕ} {w : ℕ → LedgerWork}
    (hs : s.startCall k p (fun i => .acquire i n) w = some s') :
    s'.handle k = { s.handle k with
      work := w (s.handle k).calls, calls := (s.handle k).calls + 1 } ∧
      (s'.pool p).phases (k, (s.handle k).calls) = .probing := by
  obtain ⟨q, hq, rfl⟩ := startCall_cases hs
  refine ⟨handle_setHandle_self _, ?_⟩
  show ((s.setPool p q).pool p).phases _ = _
  rw [pool_setPool_self]
  simp only [PoolSystem.step] at hq
  split at hq
  · rw [← Option.some.inj hq, PoolSystem.phases_begin, Function.update_self]
  · cases hq

theorem exists_startCall {p : PoolId} {n : ℕ} {w : ℕ → LedgerWork}
    (hfresh : (s.pool p).phases (k, (s.handle k).calls) = .unused) :
    ∃ s', s.startCall k p (fun i => .acquire i n) w = some s' := by
  have hph : ((s.pool p).call (k, (s.handle k).calls)).phase = .unused := hfresh
  rw [startCall]
  simp only [PoolSystem.step, hph]
  exact ⟨_, rfl⟩

theorem Attempting.of_current_none {j : ℕ} (hi : LedgerInv cap s) (hjob : (s.handle k).job = j)
    (hnone : (s.handle k).work.current = none) : Attempting cap j k r extra s where
  inv := hi
  job := hjob
  refusals := fun _ p m hcur => by
    rw [hnone] at hcur
    cases hcur

theorem Attempting.setWork {j : ℕ} (h : Attempting cap j k r extra s) {w : LedgerWork}
    (hnone : w.current = none) (hi' : LedgerInv cap (s.setWork k w)) :
    Attempting cap j k r extra (s.setWork k w) := by
  refine .of_current_none hi' ?_ ?_
  · rw [TransferLedger.setWork, handle_setHandle_self]
    exact h.job
  · rw [TransferLedger.setWork, handle_setHandle_self]
    exact hnone

/-- A call goes on inside a pool, which sees nothing of the attempt. -/
theorem Attempting.advance {j : ℕ} (h : Attempting cap j k r extra s)
    (hg : s.Growing k r extra) (hs : s.advance cap k (s.handle k).work = some s')
    (hi' : LedgerInv cap s') : Attempting cap j k r extra s' := by
  obtain ⟨hlive, taken, todo, call, hw⟩ := hg
  have hgoal := h.inv.goals k
  rw [hw] at hs hgoal
  rcases todo with - | ⟨p, todo⟩
  · -- all pools are charged
    rw [← Option.some.inj hs] at hi' ⊢
    refine .of_current_none hi' ((acquired_job extra .grow).trans h.job) ?_
    rw [acquired, handle_setHandle_self]
    rfl
  · obtain ⟨r', hlive', hlinks⟩ := hgoal
    obtain rfl : r = r' := Option.some.inj (hlive.symm.trans hlive')
    have hmem : p ∈ PoolId.links j r.component := by
      rw [← h.job, ← hlinks]
      exact List.mem_append_right _ (List.mem_cons_self ..)
    rcases call with - | m
    · have hs' : s.startCall k p (fun i => .acquire i extra)
          (fun m => .acquiring .grow extra taken (p :: todo) (some m)) = some s' := hs
      obtain ⟨hh, hphase⟩ := probing_of_startCall hs'
      refine ⟨hi', by rw [hh]; exact h.job, fun _ p' m' hcur href => ?_⟩
      rw [hh] at hcur
      obtain ⟨rfl, rfl⟩ := Prod.mk.inj (Option.some.inj hcur)
      rw [hphase] at href
      cases href
    · simp only [TransferLedger.advance] at hs
      split at hs
      · rw [← Option.some.inj hs] at hi' ⊢
        exact h.setWork (by rcases todo <;> rfl) hi'
      · rw [← Option.some.inj hs] at hi' ⊢
        exact h.setWork (by rcases taken <;> rfl) hi'
      · rw [← Option.some.inj hs] at hi' ⊢
        exact h.setWork (by rcases taken <;> rfl) hi'
      · -- the call takes a step: only its probe can refuse
        have hcur : (s.handle k).work.current = some (p, m) := by
          rw [hw]
          rfl
        have hbytes := h.inv.bytes_eq p k m hcur
        rw [hw] at hbytes
        obtain ⟨q, hq, rfl⟩ := Option.map_eq_some_iff.mp hs
        refine ⟨hi', h.job, fun _ p' m' hcur' href => ?_⟩
        obtain ⟨rfl, rfl⟩ := Prod.mk.inj (Option.some.inj (hcur.symm.trans hcur'))
        rw [pool_setPool_self] at href
        have hover := (PoolSystem.refused_of_next hq href).2
        rw [h.inv.caps p, hbytes] at hover
        exact ⟨hmem, hover⟩

/-- A call is dropped inside a pool. -/
theorem Attempting.cancel {j : ℕ} (h : Attempting cap j k r extra s)
    (hs : s.cancel k (s.handle k).work = some s') (hi' : LedgerInv cap s') :
    Attempting cap j k r extra s' := by
  rcases hw : (s.handle k).work with - | ⟨goal, n, taken, - | ⟨p, todo⟩, - | m⟩ | ⟨n, todo, call⟩ <;>
    rw [hw] at hs
  · cases hs
  · cases hs
  · cases hs
  · cases hs
  · obtain ⟨q, hq, rfl⟩ := Option.map_eq_some_iff.mp hs
    refine ⟨hi', h.job, fun _ p' m' hcur' href => ?_⟩
    have hcur : (s.handle k).work.current = some (p, m) := by
      rw [hw]
      rfl
    obtain ⟨rfl, rfl⟩ := Prod.mk.inj (Option.some.inj (hcur.symm.trans hcur'))
    rw [pool_setPool_self, (PoolSystem.balanced_of_cancel hq).2] at href
    cases href
  · cases hs

/-- **An attempt stays one** while its growth is in progress. -/
theorem Attempting.step {j : ℕ} (h : Attempting cap j k r extra s) (hg : s.Growing k r extra)
    {e : LedgerEvent} (hs : s.step cap e = some s') : Attempting cap j k r extra s' := by
  have hbusy : (s.handle k).work ≠ .idle := by
    obtain ⟨-, taken, todo, call, hw⟩ := hg
    rw [hw]
    exact LedgerWork.noConfusion
  have hi' := h.inv.step hs
  rcases busy_step h.inv hbusy hs with hsame | hadv | hcan
  · refine ⟨hi', by rw [hsame.1]; exact h.job, fun _ p m hcur href => ?_⟩
    rw [hsame.1] at hcur
    rw [hsame.2 p m] at href
    exact h.refusals hg p m hcur href
  · exact h.advance hg hadv hi'
  · exact h.cancel hcan hi'

/-! ### A growth beyond the component's cap -/

/-- The growth asks the component's pool and is turned away there. -/
structure TurnedAway (cap : PoolId → ℕ) (j k : ℕ) (r : TransferReservation) (extra : ℕ)
    (t : TransferLedger) : Prop where
  inv : LedgerInv cap t
  job : (t.handle k).job = j
  live : (t.handle k).live = some r
  work : (t.handle k).work = .acquiring .grow extra [] (PoolId.links j r.component) none ∨
    (∃ m, (t.handle k).work = .acquiring .grow extra [] (PoolId.links j r.component) (some m) ∧
      ((t.pool (.component j r.component)).phases (k, m) = .probing ∨
        (t.pool (.component j r.component)).phases (k, m) = .refused)) ∨
    (t.handle k).work = .releasing extra [] none

namespace TurnedAway

variable {j : ℕ}

/-- The pools count the reservation and nothing more. -/
theorem charge_eq (h : TurnedAway cap j k r extra s) (p : PoolId) :
    s.charge k p = r.bytes * (PoolId.links j r.component).count p := by
  rw [charge, linked_of_live h.live, h.job, underWay]
  rcases h.work with hw | ⟨m, hw, hph⟩ | hw
  · rw [hw]
    show _ + (extra * 0 + 0) = _
    rw [Nat.mul_zero]
    rfl
  · rw [hw]
    have hweight : ((s.pool (.component j r.component)).call (k, m)).weight = 0 := by
      rw [PoolCall.weight, if_neg]
      show ¬ ((s.pool (.component j r.component)).phases (k, m)).isCharged = true
      rcases hph with hph | hph <;> rw [hph] <;> exact Bool.false_ne_true
    show _ + (extra * 0 + s.callWeight k p (some (.component j r.component, m))) = _
    rw [callWeight, hweight, ite_self, Nat.mul_zero]
    rfl
  · rw [hw]
    show _ + (extra * 0 + 0) = _
    rw [Nat.mul_zero]
    rfl

theorem not_waits (h : TurnedAway cap j k r extra s) : ¬ s.Waits k := by
  rintro ⟨p, m, hcur, hph⟩
  rcases h.work with hw | ⟨m', hw, hph'⟩ | hw <;> rw [hw] at hcur
  · cases hcur
  · obtain ⟨rfl, rfl⟩ := Prod.mk.inj (Option.some.inj hcur)
    rcases hph' with hph' | hph' <;> rw [hph'] at hph <;> rcases hph with hph | hph <;> cases hph
  · cases hcur

/-- Only the handle's own steps change anything, and they lead to the
refusal. -/
theorem step (h : TurnedAway cap j k r extra s) (hover : cap (.component j r.component) < extra)
    (hg : s.Growing k r extra) {e : LedgerEvent} (hs : s.step cap e = some s') :
    TurnedAway cap j k r extra s' := by
  have hi' := h.inv.step hs
  obtain ⟨-, taken, todo, call, hgw⟩ := hg
  have hbusy : (s.handle k).work ≠ .idle := by
    rw [hgw]
    exact LedgerWork.noConfusion
  rcases busy_step h.inv hbusy hs with hsame | hadv | hcan
  · refine ⟨hi', by rw [hsame.1]; exact h.job, by rw [hsame.1]; exact h.live, ?_⟩
    rw [hsame.1]
    simp only [hsame.2]
    exact h.work
  · rcases h.work with hw | ⟨m, hw, hph⟩ | hw
    · rw [hw] at hadv
      have hstart : s.startCall k (.component j r.component) (fun i => .acquire i extra)
          (fun m => .acquiring .grow extra [] (PoolId.links j r.component) (some m)) =
            some s' := hadv
      obtain ⟨hh, hphase⟩ := probing_of_startCall hstart
      refine ⟨hi', by rw [hh]; exact h.job, by rw [hh]; exact h.live, .inr (.inl ⟨_, ?_, .inl hphase⟩)⟩
      rw [hh]
    · have hcur : (s.handle k).work.current = some (.component j r.component, m) := by
        rw [hw]
        rfl
      have hbytes := h.inv.bytes_eq _ k m hcur
      rw [hw] at hadv hbytes
      rcases hph with hph | hph
      · -- the probe compares with the cap first
        have hstep : s.stepCall k (.component j r.component) m = some s' := by
          simpa only [TransferLedger.advance, PoolId.links, hph] using hadv
        obtain ⟨q, hq, rfl⟩ := Option.map_eq_some_iff.mp hstep
        refine ⟨hi', h.job, h.live, .inr (.inl ⟨m, hw, .inr ?_⟩)⟩
        rw [pool_setPool_self]
        refine PoolSystem.refused_of_oversize hph ?_ hq
        rw [h.inv.caps, hbytes]
        exact hover
      · have hend : s.setWork k (.releasing extra [] none) = s' := by
          simpa only [TransferLedger.advance, PoolId.links, hph, Option.some.injEq] using hadv
        rw [← hend] at hi' ⊢
        refine ⟨hi', ?_, ?_, .inr (.inr ?_)⟩
        · rw [setWork, handle_setHandle_self]
          exact h.job
        · rw [setWork, handle_setHandle_self]
          exact h.live
        · rw [setWork, handle_setHandle_self]
    · rw [hw] at hgw
      cases hgw
  · -- only a call that waits can be dropped
    rcases h.work with hw | ⟨m, hw, hph⟩ | hw
    · rw [hw] at hcan
      cases hcan
    · rw [hw] at hcan
      obtain ⟨q, hq, -⟩ := Option.map_eq_some_iff.mp hcan
      have hph' : ((s.pool (.component j r.component)).call (k, m)).phase = .probing ∨
          ((s.pool (.component j r.component)).call (k, m)).phase = .refused := hph
      rcases hph' with hph' | hph' <;> simp only [PoolSystem.step, hph'] at hq <;> cases hq
    · rw [hw] at hgw
      cases hgw

end TurnedAway

/-! ### The law -/

section Law

variable (hi : LedgerInv cap s) (hlive : (s.handle k).live = some r)
  (hidle : (s.handle k).work = .idle)

include hi hlive hidle

omit hi hlive in
/-- An answer at once is the whole attempt. -/
theorem attempt_of_grow_eq (h : s.grow k extra r = s) {t : TransferLedger}
    (ht : s.Attempt cap k r extra t) : t = s := by
  refine Reach.invariant (I := fun t => t = s) ?_ ?_ ht
  · rintro t rfl
    exact h
  · rintro t e t' rfl ⟨-, taken, todo, call, hw⟩ -
    rw [hidle] at hw
    cases hw

theorem Attempting.of_attempt {t : TransferLedger} (ht : s.Attempt cap k r extra t) :
    Attempting cap (s.handle k).job k r extra t := by
  refine ht.invariant ?_ fun t e t' h hg hs => h.step hg hs
  rintro t rfl
  have hi' := hi.grow hlive hidle extra
  rw [grow] at hi' ⊢
  split_ifs at hi' ⊢
  · exact .of_current_none hi' rfl (by rw [hidle]; rfl)
  · exact .of_current_none hi' rfl (by rw [hidle]; rfl)
  · refine .of_current_none hi' ?_ ?_
    · rw [TransferLedger.setWork, handle_setHandle_self]
    · rw [TransferLedger.setWork, handle_setHandle_self]
      rfl

theorem TurnedAway.of_attempt (hpos : extra ≠ 0) (hno : (growRefusal r extra).isSome = false)
    (hover : cap (.component (s.handle k).job r.component) < extra) {t : TransferLedger}
    (ht : s.Attempt cap k r extra t) : TurnedAway cap (s.handle k).job k r extra t := by
  refine ht.invariant ?_ fun t e t' h hg hs => h.step hover hg hs
  rintro t rfl
  have hi' := hi.grow hlive hidle extra
  rw [grow_of_no_refusal hpos hno] at hi' ⊢
  refine ⟨hi', ?_, ?_, .inl ?_⟩
  · rw [setWork, handle_setHandle_self]
  · rw [setWork, handle_setHandle_self]
    exact hlive
  · rw [setWork, handle_setHandle_self]

omit hidle in
/-- Without a refusal the component's pool is asked and answers. -/
theorem answer_of_probe (hpos : extra ≠ 0) (hno : (growRefusal r extra).isSome = false) :
    ∃ t m, s.Attempt cap k r extra t ∧ (t.handle k).live = some r ∧
      (t.handle k).work = .acquiring .grow extra []
        (PoolId.links (s.handle k).job r.component) (some m) ∧
      ((t.pool (.component (s.handle k).job r.component)).phases (k, m) = .refused ∨
        (t.pool (.component (s.handle k).job r.component)).phases (k, m) = .acquired ∨
        (t.pool (.component (s.handle k).job r.component)).phases (k, m) = .registering) := by
  generalize hp : PoolId.component (s.handle k).job r.component = p
  generalize hw : LedgerWork.acquiring .grow extra []
    (PoolId.links (s.handle k).job r.component) none = w
  have hgrow : s.grow k extra r = s.setWork k w := by
    rw [grow_of_no_refusal hpos hno, hw]
  have hstart : s.Attempt cap k r extra (s.setWork k w) := .start hgrow.symm
  have hself : (s.setWork k w).handle k = { s.handle k with work := w } := handle_setHandle_self _
  have hgrowing : (s.setWork k w).Growing k r extra :=
    ⟨by rw [hself]; exact hlive, _, _, _, by rw [hself, ← hw]⟩
  -- the call begins
  obtain ⟨t, ht⟩ := (s.setWork k w).exists_startCall (k := k) (p := p) (n := extra)
    (w := fun m => .acquiring .grow extra [] (PoolId.links (s.handle k).job r.component) (some m))
    (by rw [hself]; exact hi.fresh p k (s.handle k).calls le_rfl)
  have hadv : (s.setWork k w).step cap (.advance k) = some t := by
    show (s.setWork k w).advance cap k ((s.setWork k w).handle k).work = some t
    rw [← ht, hself, ← hw, ← hp]
    rfl
  obtain ⟨hh, hphase⟩ := probing_of_startCall ht
  rw [hself] at hh hphase
  have hwork : (t.handle k).work = .acquiring .grow extra []
      (PoolId.links (s.handle k).job r.component) (some (s.handle k).calls) := by
    rw [hh]
  have hlive' : (t.handle k).live = some r := by
    rw [hh]
    exact hlive
  -- its pool answers
  obtain ⟨q, hq, hanswer⟩ := PoolSystem.next_probing hphase
  have hphase' : (t.pool p).phases (k, (s.handle k).calls) = .probing := hphase
  have hadv' : t.step cap (.advance k) = some (t.setPool p q) := by
    show t.advance cap k (t.handle k).work = _
    have hcall : t.stepCall k p (s.handle k).calls = some (t.setPool p q) := by
      rw [stepCall]
      show Option.map _ ((t.pool p).next _ ((t.pool p).phases _)) = _
      rw [hq]
      rfl
    rw [hwork, ← hcall]
    subst hp
    simp only [TransferLedger.advance, PoolId.links, hphase']
  refine ⟨t.setPool p q, (s.handle k).calls, ?_, hlive', hwork, ?_⟩
  · exact .next (.next hstart hgrowing hadv) ⟨hlive', _, _, _, hwork⟩ hadv'
  · rw [pool_setPool_self]
    exact hanswer

omit hi in
/-- A growth that is answered at once follows the law when the answer is the
right one. -/
theorem growLaw_of_grow_eq (h : s.grow k extra r = s) :
    s.GrowLaw cap k r extra ↔ ((growRefusal r extra).isSome = true ↔
      KDown.tightestCap cap (s.handle k).job r.component < r.bytes + extra) := by
  have hover : s.GrowOversize cap k r extra ↔ (growRefusal r extra).isSome = true := by
    constructor
    · rintro (hat | ⟨t, ht, ⟨-, taken, todo, call, hw⟩, -⟩)
      · exact hat
      · rw [attempt_of_grow_eq hidle h ht, hidle] at hw
        cases hw
    · exact .inl
  refine ⟨fun hlaw => hover.symm.trans hlaw.oversize, fun hanswer => ⟨hover.trans hanswer, ?_⟩⟩
  intro _ t ht
  rw [attempt_of_grow_eq hidle h ht]
  refine ⟨?_, hlive, fun _ => rfl⟩
  rintro ⟨p, m, hcur, -⟩
  rw [hidle] at hcur
  cases hcur

theorem growLaw_of_zero : s.GrowLaw cap k r 0 := by
  have hgrow : s.grow k 0 r = s := by rw [grow, if_pos rfl]
  rw [growLaw_of_grow_eq hlive hidle hgrow]
  exact iff_of_false Bool.false_ne_true (not_lt.mpr (hi.bytes_le hlive hidle))

/-- A size within the caps is refused by no pool. -/
theorem growLaw_of_le (hno : (growRefusal r extra).isSome = false)
    (hle : r.bytes + extra ≤ KDown.tightestCap cap (s.handle k).job r.component) :
    s.GrowLaw cap k r extra := by
  refine ⟨iff_of_false ?_ (not_lt.mpr hle), fun hlt => absurd hlt (not_lt.mpr hle)⟩
  rintro (hat | ⟨t, ht, hg, p, m, hcur, href⟩)
  · rw [hno] at hat
    cases hat
  · obtain ⟨hmem, hover⟩ :=
      (Attempting.of_attempt hi hlive hidle ht).refusals hg p m hcur href
    have hcap : extra ≤ cap p :=
      (Nat.le_add_left _ _).trans (hle.trans (le_cap_of_mem_links hmem))
    exact absurd hcap (not_le.mpr hover)

/-- A growth beyond the component's cap is refused by its pool. -/
theorem growLaw_of_turnedAway (hpos : extra ≠ 0) (hno : (growRefusal r extra).isSome = false)
    (hlt : KDown.tightestCap cap (s.handle k).job r.component < r.bytes + extra)
    (hover : cap (.component (s.handle k).job r.component) < extra) :
    s.GrowLaw cap k r extra := by
  refine ⟨iff_of_true (.inr ?_) hlt, fun _ t ht => ?_⟩
  · obtain ⟨t, m, ht, hlive', hwork, hanswer⟩ := answer_of_probe hi hlive hpos hno
    refine ⟨t, ht, ⟨hlive', _, _, _, hwork⟩, _, m, by rw [hwork]; rfl, ?_⟩
    have haway := TurnedAway.of_attempt hi hlive hidle hpos hno hover ht
    rcases haway.work with hw | ⟨m', hw, hph⟩ | hw <;> rw [hwork] at hw
    · cases hw
    · cases hw
      rcases hph with hph | hph
      · rw [hph] at hanswer
        rcases hanswer with h | h | h <;> cases h
      · exact hph
    · cases hw
  · have haway := TurnedAway.of_attempt hi hlive hidle hpos hno hover ht
    refine ⟨haway.not_waits, haway.live, fun p => ?_⟩
    rw [haway.charge_eq, charge_live hlive hidle]

/-- A size that the caps exclude and no pool refuses is waited for, or charged
to the component. -/
theorem not_growLaw_of_excluded (hpos : extra ≠ 0) (hno : (growRefusal r extra).isSome = false)
    (hlt : KDown.tightestCap cap (s.handle k).job r.component < r.bytes + extra)
    (hle : extra ≤ cap (.component (s.handle k).job r.component)) :
    ¬ s.GrowLaw cap k r extra := by
  intro hlaw
  obtain ⟨t, m, ht, hlive', hwork, hanswer⟩ := answer_of_probe hi hlive hpos hno
  obtain ⟨hwait, -, hcharge⟩ := hlaw.excluded hlt t ht
  have hatt := Attempting.of_attempt hi hlive hidle ht
  have hcur : (t.handle k).work.current =
      some (.component (s.handle k).job r.component, m) := by
    rw [hwork]
    rfl
  rcases hanswer with hph | hph | hph
  · have hover := (hatt.refusals ⟨hlive', _, _, _, hwork⟩ _ m hcur hph).2
    exact absurd hle (not_le.mpr hover)
  · -- the component counts the growth already
    have hbytes := hatt.inv.bytes_eq _ k m hcur
    have hsame := hcharge (.component (s.handle k).job r.component)
    have hcall : t.callWeight k (.component (s.handle k).job r.component)
        (t.handle k).work.current = extra := by
      rw [hcur, callWeight, if_pos rfl, PoolCall.weight, if_pos, hbytes, hwork]
      · rfl
      · show ((t.pool _).phases (k, m)).isCharged = true
        rw [hph]
        rfl
    rw [charge_live hlive hidle, charge, linked_of_live hlive', hatt.job, underWay, hcall] at hsame
    omega
  · exact hwait ⟨_, m, hcur, .inl hph⟩

end Law

/-- **When a growth is oversize.**  For every history of the ledger and every
growth of a reservation at rest, whatever all other reservations do meanwhile:
the growth is refused exactly when the caps of its current component, job and
engine exclude the enlarged size, and such a size is neither waited for nor
charged, just when the cap remembered at the reservation answers like the
current ones. -/
theorem grow_oversize_law (hs : Reach (step cap) (fun _ _ => True) (· = new cap) s)
    (hlive : (s.handle k).live = some r) (hidle : (s.handle k).work = .idle) (extra : ℕ) :
    s.GrowLaw cap k r extra ↔ RemembersCap cap (s.handle k).job r extra := by
  have hi := inv_of_reach hs
  rcases eq_or_ne extra 0 with rfl | hpos
  · refine iff_of_true (growLaw_of_zero hi hlive hidle) ⟨fun h => absurd rfl h, fun hlt => ?_⟩
    exact absurd hlt (not_lt.mpr (hi.bytes_le hlive hidle))
  rcases href : (growRefusal r extra).isSome with - | -
  · have hwithin : (r.bytes + extra) % 2 ^ 64 ≤ r.tightestCap := by
      by_contra hover
      rw [isSome_growRefusal.mpr ⟨hpos, not_le.mp hover⟩] at href
      cases href
    rcases le_or_gt (r.bytes + extra) (KDown.tightestCap cap (s.handle k).job r.component) with
      hle | hlt
    · exact iff_of_true (growLaw_of_le hi hlive hidle href hle)
        ⟨fun _ _ => hwithin, fun hlt => absurd hlt (not_lt.mpr hle)⟩
    rcases le_or_gt extra (cap (.component (s.handle k).job r.component)) with hfits | hover
    · exact iff_of_false (not_growLaw_of_excluded hi hlive hidle hpos href hlt hfits)
        fun h => absurd hwithin (not_le.mpr (h.excludes hlt hfits))
    · exact iff_of_true (growLaw_of_turnedAway hi hlive hidle hpos href hlt hover)
        ⟨fun _ hle => absurd hlt (not_lt.mpr hle), fun _ hle => absurd hover (not_lt.mpr hle)⟩
  · have hover := (isSome_growRefusal.mp href).2
    rw [growLaw_of_grow_eq hlive hidle (grow_of_refusal href)]
    constructor
    · intro hanswer
      exact ⟨fun _ hle => absurd (hanswer.mp href) (not_lt.mpr hle), fun _ _ => hover⟩
    · intro h
      refine iff_of_true href (not_le.mp fun hle => ?_)
      exact absurd (h.admits hpos hle) (not_le.mpr hover)

/-- Frames may take 16 bytes of a job, its writer 8. -/
def unequalCap : PoolId → ℕ
  | .component _ .writer => 8
  | _ => 16

/-- Eight bytes of frames. -/
def framesRun : List LedgerEvent := .reserve 0 .frames 8 :: List.replicate 10 (.advance 0)

/-- The law holds of a growth of the frames by four bytes. -/
theorem grow_oversize_law_framesRun :
    ∃ s, runEvents (step unequalCap) (new unequalCap) framesRun = some s ∧
      s.GrowLaw unequalCap 0 ⟨.frames, 8, 16⟩ 4 := by
  have hrun : ∃ s, runEvents (step unequalCap) (new unequalCap) framesRun = some s ∧
      (s.handle 0).job = 0 ∧ (s.handle 0).live = some ⟨.frames, 8, 16⟩ ∧
        (s.handle 0).work = .idle :=
    ⟨_, rfl, rfl, rfl, rfl⟩
  obtain ⟨s, hs, hjob, hlive, hidle⟩ := hrun
  refine ⟨s, hs, (grow_oversize_law (.of_run (.start rfl) runOk_true hs) hlive hidle 4).mpr ?_⟩
  rw [hjob]
  exact ⟨fun _ _ => by decide, fun hlt => absurd hlt (by decide)⟩

/-- The frames have become the writer's. -/
def retaggedRun : List LedgerEvent :=
  framesRun ++ LedgerEvent.retag 0 .writer :: List.replicate 9 (.advance 0)

/-- The writer's cap excludes four more bytes, the remembered cap of the frames
admits them: the growth waits for what its own reservation holds. -/
theorem retagged_growth_waits :
    ¬ ∀ (cap : PoolId → ℕ) (s : TransferLedger) (k : ℕ) (r : TransferReservation) (extra : ℕ),
      Reach (step cap) (fun _ _ => True) (· = new cap) s → (s.handle k).live = some r →
        (s.handle k).work = .idle → s.GrowLaw cap k r extra := by
  intro hall
  have hrun : (runEvents (step unequalCap) (new unequalCap) retaggedRun).map
      (fun s => s.handle 0) = some ⟨0, some ⟨.writer, 8, 16⟩, .idle, 5⟩ := by
    decide +kernel
  obtain ⟨s, hs, hhandle⟩ := Option.map_eq_some_iff.mp hrun
  have hjob : (s.handle 0).job = 0 := by rw [hhandle]
  have hlive : (s.handle 0).live = some ⟨.writer, 8, 16⟩ := by rw [hhandle]
  have hidle : (s.handle 0).work = .idle := by rw [hhandle]
  have hreach : Reach (step unequalCap) (fun _ _ => True) (· = new unequalCap) s :=
    .of_run (.start rfl) runOk_true hs
  refine not_growLaw_of_excluded (inv_of_reach hreach) hlive hidle (by decide) rfl ?_ ?_
    (hall _ s 0 _ 4 hreach hlive hidle)
  · rw [hjob]
    decide
  · rw [hjob]
    decide

end TransferLedger

end KDown
