/-
KDown/TransferLedger.lean

The transfer-memory ledger (io/transfer_ledger.rs): reservations charged to a
component pool, a job pool and the controller pool.

A reservation is a handle on which one operation runs at a time.  An
operation is a series of calls on pools: `reserve` and `grow` acquire from the
component, the job and the controller, `retag` acquires from the target
component and then releases the old one, `shrink_to` and dropping release in
the reverse order, and an acquisition that is refused or dropped while it
waits rolls back what it has taken.  Between any two steps of one operation
all other operations may take theirs, down to the steps under one pool's
mutex.

The metering per component is for observation only and left out.

* `ledger_conserved`: every pool counts exactly what the reservations hold of
  it, what acquisitions under way have taken and what releases under way have
  not returned yet.
-/
import KDown.LedgerPoolBalance
import Mathlib.Algebra.BigOperators.Group.Finset.Basic
import Mathlib.Algebra.Order.BigOperators.Group.Finset

namespace KDown

/-- An accounted pipeline component. -/
inductive Component
  | networkIngress
  | frames
  | writer
  | checkpoint
  deriving DecidableEq, Repr

/-- The pools: one for the engine, and one for each job and each of its
components. -/
inductive PoolId
  | controller
  | job (j : ℕ)
  | component (j : ℕ) (c : Component)
  deriving DecidableEq, Repr

/-- What a reservation of component `c` is charged to, in the order of
acquisition. -/
def PoolId.links (j : ℕ) (c : Component) : List PoolId := [.component j c, .job j, .controller]

/-- The tightest cap an atomic allocation must fit. -/
def tightestCap (cap : PoolId → ℕ) (j : ℕ) (c : Component) : ℕ :=
  min (min (cap (.component j c)) (cap (.job j))) (cap .controller)

/-- An ownership-tagged byte reservation. -/
structure TransferReservation where
  component : Component
  bytes : ℕ
  /-- The cap that bound it when it was reserved. -/
  tightestCap : ℕ
  deriving DecidableEq, Repr

/-- What an acquisition is for. -/
inductive AcquireGoal
  | reserve (c : Component)
  | grow
  | retag (dst : Component)
  deriving DecidableEq, Repr

/-- The operation that runs on a handle.  Its current call, if any, is on the
first pool of `todo`. -/
inductive LedgerWork
  | idle
  /-- `taken` lists the armed rollback guards, the last one first. -/
  | acquiring (goal : AcquireGoal) (bytes : ℕ) (taken todo : List PoolId) (call : Option ℕ)
  | releasing (bytes : ℕ) (todo : List PoolId) (call : Option ℕ)
  deriving DecidableEq, Repr

namespace LedgerWork

/-- The current call and its pool. -/
def current : LedgerWork → Option (PoolId × ℕ)
  | .acquiring _ _ _ (p :: _) (some m) => some (p, m)
  | .releasing _ (p :: _) (some m) => some (p, m)
  | _ => none

/-- How many bytes each call of the operation moves. -/
def bytes : LedgerWork → ℕ
  | .idle => 0
  | .acquiring _ n _ _ _ => n
  | .releasing n _ _ => n

/-- The pools that count the bytes of the operation, the current call
apart. -/
def held : LedgerWork → List PoolId
  | .idle => []
  | .acquiring _ _ taken _ _ => taken
  | .releasing _ todo none => todo
  | .releasing _ todo (some _) => todo.tail

/-- An acquisition is in progress. -/
def isAcquiring : LedgerWork → Bool
  | .acquiring _ _ _ _ _ => true
  | _ => false

end LedgerWork

/-- A reservation handle, with the operation in progress on it. -/
structure LedgerHandle where
  job : ℕ
  live : Option TransferReservation
  work : LedgerWork
  /-- Calls made so far; they are numbered. -/
  calls : ℕ
  deriving DecidableEq, Repr

/-- The pools, and all handles given out. -/
structure TransferLedger where
  pool : PoolId → PoolSystem (ℕ × ℕ)
  handle : ℕ → LedgerHandle
  /-- Handles given out so far. -/
  size : ℕ

/-- An operation on a handle begins, goes on, or is dropped. -/
inductive LedgerEvent
  /-- A new handle. -/
  | reserve (j : ℕ) (c : Component) (bytes : ℕ)
  | grow (k extra : ℕ)
  | shrinkTo (k bytes : ℕ)
  | reconcile (k actual : ℕ)
  | retag (k : ℕ) (dst : Component)
  | drop (k : ℕ)
  /-- The next step of the operation on a handle. -/
  | advance (k : ℕ)
  /-- The waiting future is dropped. -/
  | cancel (k : ℕ)

namespace TransferLedger

/-- A ledger with no handles. -/
def new (cap : PoolId → ℕ) : TransferLedger where
  pool := fun p => .new (cap p)
  handle := fun _ => ⟨0, none, .idle, 0⟩
  size := 0

/-- The handle is replaced. -/
def setHandle (s : TransferLedger) (k : ℕ) (h : LedgerHandle) : TransferLedger :=
  { s with handle := Function.update s.handle k h }

/-- The pool is replaced. -/
def setPool (s : TransferLedger) (p : PoolId) (q : PoolSystem (ℕ × ℕ)) : TransferLedger :=
  { s with pool := Function.update s.pool p q }

/-- The operation on the handle is replaced. -/
def setWork (s : TransferLedger) (k : ℕ) (w : LedgerWork) : TransferLedger :=
  s.setHandle k { s.handle k with work := w }

/-- The pool call numbered next is made on `p`. -/
def startCall (s : TransferLedger) (k : ℕ) (p : PoolId) (e : ℕ × ℕ → PoolCallEvent (ℕ × ℕ))
    (w : ℕ → LedgerWork) : Option TransferLedger :=
  ((s.pool p).step (e (k, (s.handle k).calls))).map fun q =>
    (s.setPool p q).setHandle k
      { s.handle k with work := w (s.handle k).calls, calls := (s.handle k).calls + 1 }

/-- The current call on `p` takes its next step. -/
def stepCall (s : TransferLedger) (k : ℕ) (p : PoolId) (m : ℕ) : Option TransferLedger :=
  ((s.pool p).step (.next (k, m))).map fun q => s.setPool p q

/-- All pools are charged. -/
def acquired (s : TransferLedger) (cap : PoolId → ℕ) (k n : ℕ) :
    AcquireGoal → TransferLedger
  | .reserve c => s.setHandle k
      { s.handle k with
        live := some ⟨c, n, KDown.tightestCap cap (s.handle k).job c⟩
        work := .idle }
  | .grow => s.setHandle k
      { s.handle k with
        live := (s.handle k).live.map fun r => { r with bytes := r.bytes + n }
        work := .idle }
  | .retag dst =>
      match (s.handle k).live with
      | none => s.setWork k .idle
      | some r => s.setHandle k
          { s.handle k with
            live := some { r with component := dst }
            work := .releasing n [.component (s.handle k).job r.component] none }

/-- The next step of the operation on handle `k`. -/
def advance (s : TransferLedger) (cap : PoolId → ℕ) (k : ℕ) :
    LedgerWork → Option TransferLedger
  | .idle => none
  | .acquiring goal n _ [] _ => some (s.acquired cap k n goal)
  | .acquiring goal n taken (p :: todo) none =>
      s.startCall k p (fun i => .acquire i n) fun m => .acquiring goal n taken (p :: todo) (some m)
  | .acquiring goal n taken (p :: todo) (some m) =>
      match (s.pool p).phases (k, m) with
      | .acquired => some (s.setWork k (.acquiring goal n (p :: taken) todo none))
      -- an error or a dropped future: the guards roll back
      | .refused => some (s.setWork k (.releasing n taken none))
      | .cancelled => some (s.setWork k (.releasing n taken none))
      | _ => s.stepCall k p m
  | .releasing _ [] _ => some (s.setWork k .idle)
  | .releasing n (p :: todo) none =>
      s.startCall k p (fun i => .release i n) fun m => .releasing n (p :: todo) (some m)
  | .releasing n (p :: todo) (some m) =>
      match (s.pool p).phases (k, m) with
      | .released => some (s.setWork k (.releasing n todo none))
      | _ => s.stepCall k p m

/-- An operation starts on a live reservation that is not busy. -/
def onLive (s : TransferLedger) (k : ℕ) (f : TransferReservation → TransferLedger) :
    Option TransferLedger :=
  match (s.handle k).live, (s.handle k).work with
  | some r, .idle => some (f r)
  | _, _ => none

/-- `reserve`: what is above the tightest cap is refused, and the rest asks one
pool after the other. -/
def reserve (s : TransferLedger) (cap : PoolId → ℕ) (j : ℕ) (c : Component) (bytes : ℕ) :
    TransferLedger :=
  if KDown.tightestCap cap j c < bytes then s
  else { s.setHandle s.size
      { s.handle s.size with
        job := j
        work := .acquiring (.reserve c) bytes [] (PoolId.links j c) none } with
    size := s.size + 1 }

/-- `grow`: what the remembered cap excludes is refused, and the growth asks the
same pools. -/
def grow (s : TransferLedger) (k extra : ℕ) (r : TransferReservation) : TransferLedger :=
  if extra = 0 then s
  -- the sum is a 64-bit one
  else if r.tightestCap < (r.bytes + extra) % 2 ^ 64 then s
  else s.setWork k (.acquiring .grow extra [] (PoolId.links (s.handle k).job r.component) none)

/-- `shrink_to`: the difference goes back to the pools. -/
def shrinkTo (s : TransferLedger) (k bytes : ℕ) (r : TransferReservation) : TransferLedger :=
  if r.bytes ≤ bytes then s
  else s.setHandle k
    { s.handle k with
      live := some { r with bytes := bytes }
      work := .releasing (r.bytes - bytes) (PoolId.links (s.handle k).job r.component).reverse
        none }

/-- `reconcile`: the estimate is replaced by the size that it turned out to be,
if that is smaller. -/
def reconcile (s : TransferLedger) (k actual : ℕ) (r : TransferReservation) : TransferLedger :=
  if actual < r.bytes then s.shrinkTo k actual r else s

/-- `retag`: the bytes move to another component's pool. -/
def retag (s : TransferLedger) (cap : PoolId → ℕ) (k : ℕ) (dst : Component)
    (r : TransferReservation) : TransferLedger :=
  if dst = r.component then s
  else if cap (.component (s.handle k).job dst) < r.bytes then s
  else s.setWork k (.acquiring (.retag dst) r.bytes [] [.component (s.handle k).job dst] none)

/-- The reservation is dropped, and all its bytes go back. -/
def drop (s : TransferLedger) (k : ℕ) (r : TransferReservation) : TransferLedger :=
  s.setHandle k
    { s.handle k with
      live := none
      work := .releasing r.bytes (PoolId.links (s.handle k).job r.component).reverse none }

/-- A waiting call is dropped with its future. -/
def cancel (s : TransferLedger) (k : ℕ) : LedgerWork → Option TransferLedger
  | .acquiring _ _ _ (p :: _) (some m) =>
      ((s.pool p).step (.cancel (k, m))).map fun q => s.setPool p q
  | _ => none

/-- One event. -/
def step (cap : PoolId → ℕ) (s : TransferLedger) : LedgerEvent → Option TransferLedger
  | .reserve j c bytes => some (s.reserve cap j c bytes)
  | .grow k extra => s.onLive k (s.grow k extra)
  | .shrinkTo k bytes => s.onLive k (s.shrinkTo k bytes)
  | .reconcile k actual => s.onLive k (s.reconcile k actual)
  | .retag k dst => s.onLive k (s.retag cap k dst)
  | .drop k => s.onLive k (s.drop k)
  | .advance k => s.advance cap k (s.handle k).work
  | .cancel k => s.cancel k (s.handle k).work

/-! ### What the pools count -/

/-- What handle `k`'s reservation is charged on pool `p`. -/
def linked (s : TransferLedger) (k : ℕ) (p : PoolId) : ℕ :=
  match (s.handle k).live with
  | none => 0
  | some r => if p ∈ PoolId.links (s.handle k).job r.component then r.bytes else 0

/-- What pool `p` counts for a call of handle `k`. -/
def callWeight (s : TransferLedger) (k : ℕ) (p : PoolId) : Option (PoolId × ℕ) → ℕ
  | none => 0
  | some (q, m) => if q = p then ((s.pool q).call (k, m)).weight else 0

/-- What pool `p` counts for the operation under way on handle `k`. -/
def underWay (s : TransferLedger) (k : ℕ) (p : PoolId) : ℕ :=
  (s.handle k).work.bytes * (s.handle k).work.held.count p +
    s.callWeight k p (s.handle k).work.current

/-- Taken by an acquisition still in progress. -/
def taken (s : TransferLedger) (k : ℕ) (p : PoolId) : ℕ :=
  if (s.handle k).work.isAcquiring then s.underWay k p else 0

/-- Not yet returned by a release still in progress. -/
def owed (s : TransferLedger) (k : ℕ) (p : PoolId) : ℕ :=
  if (s.handle k).work.isAcquiring then 0 else s.underWay k p

/-- What the pool counts on account of the handle. -/
def charge (s : TransferLedger) (k : ℕ) (p : PoolId) : ℕ := s.linked k p + s.underWay k p

theorem charge_eq (s : TransferLedger) (k : ℕ) (p : PoolId) :
    s.charge k p = s.linked k p + s.taken k p + s.owed k p := by
  rw [charge, taken, owed]
  split <;> omega

end TransferLedger

/-- The operation fits the reservation it runs on. -/
def LedgerHandle.goalOk (cap : PoolId → ℕ) (h : LedgerHandle) : LedgerWork → Prop
  | .acquiring (.reserve c) n taken todo _ =>
      h.live = none ∧ n ≤ tightestCap cap h.job c ∧ taken.reverse ++ todo = PoolId.links h.job c
  | .acquiring .grow _ taken todo _ =>
      ∃ r, h.live = some r ∧ taken.reverse ++ todo = PoolId.links h.job r.component
  | .acquiring (.retag dst) n taken todo _ =>
      ∃ r, h.live = some r ∧ r.bytes = n ∧ taken.reverse ++ todo = [.component h.job dst]
  | _ => True

theorem goalOk_congr {cap : PoolId → ℕ} {h h' : LedgerHandle} (hjob : h'.job = h.job)
    (hlive : h'.live = h.live) {w : LedgerWork} (hw : h.goalOk cap w) : h'.goalOk cap w := by
  rcases w with - | ⟨c | - | dst, n, taken, todo, call⟩ | ⟨n, todo, call⟩
  · trivial
  · simpa only [LedgerHandle.goalOk, hjob, hlive] using hw
  · simpa only [LedgerHandle.goalOk, hjob, hlive] using hw
  · simpa only [LedgerHandle.goalOk, hjob, hlive] using hw
  · trivial

/-- A call that has ended, or never began. -/
def PoolPhase.isSettled {ι : Type*} : PoolPhase ι → Bool
  | .unused => true
  | .acquired => true
  | .refused => true
  | .cancelled => true
  | .released => true
  | _ => false

namespace TransferLedger

/-- What every interleaving keeps. -/
structure LedgerInv (cap : PoolId → ℕ) (s : TransferLedger) : Prop where
  pools : ∀ p, (s.pool p).Inv
  caps : ∀ p, (s.pool p).pool.cap = cap p
  conserved : ∀ p, (s.pool p).pool.outstanding = ∑ k ∈ Finset.range s.size, s.charge k p
  le_cap : ∀ p, (s.pool p).pool.outstanding ≤ (s.pool p).pool.cap
  le_highWater : ∀ p, (s.pool p).pool.outstanding ≤ (s.pool p).pool.highWater
  unused : ∀ k, s.size ≤ k → (s.handle k).live = none ∧ (s.handle k).work = .idle
  fresh : ∀ p k m, (s.handle k).calls ≤ m → (s.pool p).phases (k, m) = .unused
  active : ∀ p k m, (s.pool p).phases (k, m) ≠ .unused →
    ((s.pool p).phases (k, m)).isSettled = false → (s.handle k).work.current = some (p, m)
  bytes_eq : ∀ p k m, (s.handle k).work.current = some (p, m) →
    ((s.pool p).call (k, m)).bytes = (s.handle k).work.bytes
  goals : ∀ k, (s.handle k).goalOk cap (s.handle k).work

theorem LedgerInv.new (cap : PoolId → ℕ) : LedgerInv cap (TransferLedger.new cap) where
  pools := fun p => .new (cap p)
  caps := fun _ => rfl
  conserved := fun _ => rfl
  le_cap := fun _ => Nat.zero_le _
  le_highWater := fun _ => le_rfl
  unused := fun _ _ => ⟨rfl, rfl⟩
  fresh := fun _ _ _ _ => rfl
  active := fun _ _ _ h => absurd rfl h
  bytes_eq := fun _ _ _ h => absurd h (by simp [TransferLedger.new, LedgerWork.current])
  goals := fun _ => trivial

variable {cap : PoolId → ℕ} {s : TransferLedger} {k : ℕ}

/-- A handle's charge depends on the handle and on what its calls weigh. -/
theorem charge_congr {s' : TransferLedger} (hh : s'.handle k = s.handle k)
    (hw : ∀ p m, ((s'.pool p).call (k, m)).weight = ((s.pool p).call (k, m)).weight) (p : PoolId) :
    s'.charge k p = s.charge k p := by
  have hcall : ∀ cur, s'.callWeight k p cur = s.callWeight k p cur := by
    rintro (- | ⟨q, m⟩)
    · rfl
    · simp only [callWeight, hw q m]
  rw [charge, charge, linked, linked, underWay, underWay, hh, hcall]

/-- The books stay balanced when one handle's charge changes with its pool. -/
theorem conserved_of_one (s' : TransferLedger) (hk : k < s.size) (hsize : s'.size = s.size)
    (hother : ∀ k', k' ≠ k → ∀ p, s'.charge k' p = s.charge k' p) {p : PoolId}
    (hp : (s'.pool p).pool.outstanding + s.charge k p
      = (s.pool p).pool.outstanding + s'.charge k p)
    (h : (s.pool p).pool.outstanding = ∑ k ∈ Finset.range s.size, s.charge k p) :
    (s'.pool p).pool.outstanding = ∑ k ∈ Finset.range s'.size, s'.charge k p := by
  have hmem : k ∈ Finset.range s.size := Finset.mem_range.mpr hk
  have hrest : ∑ k' ∈ (Finset.range s.size).erase k, s'.charge k' p
      = ∑ k' ∈ (Finset.range s.size).erase k, s.charge k' p :=
    Finset.sum_congr rfl fun k' hk' => hother k' (Finset.ne_of_mem_erase hk') p
  have hold := Finset.add_sum_erase (Finset.range s.size) (fun k' => s.charge k' p) hmem
  have hnew := Finset.add_sum_erase (Finset.range s.size) (fun k' => s'.charge k' p) hmem
  rw [hsize, ← hnew, hrest]
  rw [← hold] at h
  omega

/-- A handle's share of a pool is no more than the pool counts. -/
theorem LedgerInv.charge_le (h : LedgerInv cap s) (hk : k < s.size) (p : PoolId) :
    s.charge k p ≤ (s.pool p).pool.outstanding := by
  rw [h.conserved p]
  exact Finset.single_le_sum (f := fun k => s.charge k p) (fun _ _ => Nat.zero_le _)
    (Finset.mem_range.mpr hk)

theorem LedgerInv.lt_size (h : LedgerInv cap s) (hw : (s.handle k).work ≠ .idle) : k < s.size := by
  by_contra hk
  exact hw (h.unused k (not_lt.mp hk)).2

theorem LedgerInv.lt_size_of_live (h : LedgerInv cap s) {r : TransferReservation}
    (hl : (s.handle k).live = some r) : k < s.size := by
  by_contra hk
  rw [(h.unused k (not_lt.mp hk)).1] at hl
  cases hl

/-! ### Steps that leave the pools alone -/

theorem handle_setHandle_self (h : LedgerHandle) : (s.setHandle k h).handle k = h :=
  Function.update_self ..

theorem handle_setHandle_of_ne {j : ℕ} (h : LedgerHandle) (hj : j ≠ k) :
    (s.setHandle k h).handle j = s.handle j := Function.update_of_ne hj ..

/-- The operation on a handle moves on between two calls. -/
theorem LedgerInv.setHandle (hi : LedgerInv cap s) (hk : k < s.size) {h : LedgerHandle}
    (hcharge : ∀ p, (s.setHandle k h).charge k p = s.charge k p)
    (hcalls : h.calls = (s.handle k).calls) (hnone : h.work.current = none)
    (hsettled : ∀ p m, (s.handle k).work.current = some (p, m) →
      ((s.pool p).phases (k, m)).isSettled = true)
    (hgoal : h.goalOk cap h.work) : LedgerInv cap (s.setHandle k h) where
  pools := hi.pools
  caps := hi.caps
  conserved := fun p => by
    refine conserved_of_one (s.setHandle k h) hk rfl (fun k' hne q => ?_) ?_ (hi.conserved p)
    · exact charge_congr (handle_setHandle_of_ne h hne) (fun _ _ => rfl) q
    · rw [hcharge p]
      rfl
  le_cap := hi.le_cap
  le_highWater := hi.le_highWater
  unused := fun j hj => by
    have hne : j ≠ k := by
      rintro rfl
      exact absurd hk (not_lt.mpr hj)
    rw [handle_setHandle_of_ne h hne]
    exact hi.unused j hj
  fresh := fun p j m hm => by
    refine hi.fresh p j m ?_
    rcases eq_or_ne j k with rfl | hne
    · rw [handle_setHandle_self, hcalls] at hm
      exact hm
    · rw [handle_setHandle_of_ne h hne] at hm
      exact hm
  active := fun p j m hused hact => by
    have hcur := hi.active p j m hused hact
    rcases eq_or_ne j k with rfl | hne
    · have hact' : ((s.pool p).phases (j, m)).isSettled = false := hact
      rw [hsettled p m hcur] at hact'
      cases hact'
    · rw [handle_setHandle_of_ne h hne]
      exact hcur
  bytes_eq := fun p j m hcur => by
    rcases eq_or_ne j k with rfl | hne
    · rw [handle_setHandle_self, hnone] at hcur
      cases hcur
    · rw [handle_setHandle_of_ne h hne] at hcur ⊢
      exact hi.bytes_eq p j m hcur
  goals := fun j => by
    rcases eq_or_ne j k with rfl | hne
    · rw [handle_setHandle_self]
      exact hgoal
    · rw [handle_setHandle_of_ne h hne]
      exact hi.goals j

/-! ### Steps of a call -/

theorem pool_setPool_self (p : PoolId) (q : PoolSystem (ℕ × ℕ)) : (s.setPool p q).pool p = q :=
  Function.update_self ..

theorem pool_setPool_of_ne {p p' : PoolId} (q : PoolSystem (ℕ × ℕ)) (h : p' ≠ p) :
    (s.setPool p q).pool p' = s.pool p' := Function.update_of_ne h ..

/-- What everybody else's calls look like after a step of call `i` on `p`. -/
theorem phases_setPool {p p' : PoolId} {q : PoolSystem (ℕ × ℕ)} {i j : ℕ × ℕ}
    (hq : (s.pool p).Moves q i) (hj : p' ≠ p ∨ j ≠ i) :
    ((s.setPool p q).pool p').phases j = (s.pool p').phases j ∧
      (((s.setPool p q).pool p').call j).bytes = ((s.pool p').call j).bytes := by
  rcases eq_or_ne p' p with rfl | hne
  · rw [pool_setPool_self]
    exact hq.others j (hj.resolve_left (fun h => h rfl))
  · rw [pool_setPool_of_ne q hne]
    exact ⟨rfl, rfl⟩

theorem weight_setPool {p p' : PoolId} {q : PoolSystem (ℕ × ℕ)} {i j : ℕ × ℕ}
    (hq : (s.pool p).Moves q i) (hj : p' ≠ p ∨ j ≠ i) :
    (((s.setPool p q).pool p').call j).weight = ((s.pool p').call j).weight := by
  obtain ⟨hphase, hbytes⟩ := phases_setPool hq hj
  have hphase' : (((s.setPool p q).pool p').call j).phase = ((s.pool p').call j).phase := hphase
  rw [PoolCall.weight, PoolCall.weight, hphase', hbytes]

/-- The current call of handle `k` takes a step. -/
theorem LedgerInv.current_step (hi : LedgerInv cap s) {p : PoolId} {m : ℕ}
    (hcur : (s.handle k).work.current = some (p, m)) {q : PoolSystem (ℕ × ℕ)} (hinv : q.Inv)
    (hb : (s.pool p).Balanced q (k, m)) (hused : (s.pool p).phases (k, m) ≠ .unused) :
    LedgerInv cap (s.setPool p q) := by
  have hk : k < s.size := hi.lt_size (by rintro hw; rw [hw] at hcur; cases hcur)
  have hother : ∀ k', k' ≠ k → ∀ p', (s.setPool p q).charge k' p' = s.charge k' p' :=
    fun k' hne => charge_congr rfl fun p' m' =>
      weight_setPool hb.toMoves (.inr fun he => hne (congrArg Prod.fst he))
  -- the charge of handle `k` changes by what its current call weighs
  have hself : ∀ p', (s.setPool p q).charge k p' + s.callWeight k p' (some (p, m))
      = s.charge k p' + (s.setPool p q).callWeight k p' (some (p, m)) := by
    intro p'
    have hhandle : (s.setPool p q).handle k = s.handle k := rfl
    rw [charge, charge, underWay, underWay, linked, linked, hhandle, hcur]
    omega
  exact
    { pools := fun p' => by
        rcases eq_or_ne p' p with rfl | hne
        · rw [pool_setPool_self]
          exact hinv
        · rw [pool_setPool_of_ne q hne]
          exact hi.pools p'
      caps := fun p' => by
        rcases eq_or_ne p' p with rfl | hne
        · rw [pool_setPool_self, hb.cap]
          exact hi.caps p'
        · rw [pool_setPool_of_ne q hne]
          exact hi.caps p'
      conserved := fun p' => by
        refine conserved_of_one (s.setPool p q) hk rfl hother ?_ (hi.conserved p')
        have hch := hself p'
        rcases eq_or_ne p' p with rfl | hne
        · simp only [callWeight, if_pos, pool_setPool_self] at hch
          rw [pool_setPool_self]
          have hbal := hb.balance
          omega
        · simp only [callWeight, if_neg (Ne.symm hne)] at hch
          rw [pool_setPool_of_ne q hne]
          omega
      le_cap := fun p' => by
        rcases eq_or_ne p' p with rfl | hne
        · rw [pool_setPool_self]
          exact hb.le_cap (hi.le_cap p')
        · rw [pool_setPool_of_ne q hne]
          exact hi.le_cap p'
      le_highWater := fun p' => by
        rcases eq_or_ne p' p with rfl | hne
        · rw [pool_setPool_self]
          exact hb.le_highWater (hi.le_highWater p')
        · rw [pool_setPool_of_ne q hne]
          exact hi.le_highWater p'
      unused := hi.unused
      fresh := fun p' k' m' hm => by
        have hne : p' ≠ p ∨ (k', m') ≠ (k, m) := by
          by_contra hcon
          obtain ⟨rfl, he⟩ := not_or.mp hcon |>.imp not_not.mp not_not.mp
          obtain ⟨rfl, rfl⟩ := Prod.mk.inj he
          exact hused (hi.fresh p' k' m' hm)
        rw [(phases_setPool hb.toMoves hne).1]
        exact hi.fresh p' k' m' hm
      active := fun p' k' m' hne hact => by
        by_cases he : p' = p ∧ (k', m') = (k, m)
        · obtain ⟨rfl, he⟩ := he
          obtain ⟨rfl, rfl⟩ := Prod.mk.inj he
          exact hcur
        · have he' : p' ≠ p ∨ (k', m') ≠ (k, m) := not_and_or.mp he
          rw [(phases_setPool hb.toMoves he').1] at hne hact
          exact hi.active p' k' m' hne hact
      bytes_eq := fun p' k' m' hc => by
        by_cases he : p' = p ∧ (k', m') = (k, m)
        · obtain ⟨rfl, he⟩ := he
          obtain ⟨rfl, rfl⟩ := Prod.mk.inj he
          rw [pool_setPool_self, hb.bytes]
          exact hi.bytes_eq p' k' m' hc
        · rw [(phases_setPool hb.toMoves (not_and_or.mp he)).2]
          exact hi.bytes_eq p' k' m' hc
      goals := hi.goals }

/-- Handle `k` makes its next call, on pool `p`. -/
theorem LedgerInv.start_call (hi : LedgerInv cap s) (hk : k < s.size)
    (hnone : (s.handle k).work.current = none) {p : PoolId} {q : PoolSystem (ℕ × ℕ)}
    (hinv : q.Inv) (hm : (s.pool p).Moves q (k, (s.handle k).calls))
    (hpool : q.pool = (s.pool p).pool) (hused : q.phases (k, (s.handle k).calls) ≠ .unused)
    {w : LedgerWork} (hcur : w.current = some (p, (s.handle k).calls))
    (hbytes : (q.call (k, (s.handle k).calls)).bytes = w.bytes)
    (hweight : ∀ p', w.bytes * w.held.count p' +
        (if p = p' then (q.call (k, (s.handle k).calls)).weight else 0)
      = (s.handle k).work.bytes * (s.handle k).work.held.count p')
    (hgoal : (s.handle k).goalOk cap w) :
    LedgerInv cap ((s.setPool p q).setHandle k
      { s.handle k with work := w, calls := (s.handle k).calls + 1 }) := by
  generalize hs' : (s.setPool p q).setHandle k
    { s.handle k with work := w, calls := (s.handle k).calls + 1 } = s'
  have hsize : s'.size = s.size := by rw [← hs']; rfl
  have hpools : s'.pool = (s.setPool p q).pool := by rw [← hs']; rfl
  have hself : s'.handle k = { s.handle k with work := w, calls := (s.handle k).calls + 1 } := by
    rw [← hs', handle_setHandle_self]
  have hothers : ∀ j, j ≠ k → s'.handle j = s.handle j := by
    intro j hj
    rw [← hs', handle_setHandle_of_ne _ hj]
    rfl
  have hout : ∀ p', (s'.pool p').pool = (s.pool p').pool := by
    intro p'
    rw [hpools]
    rcases eq_or_ne p' p with rfl | hne
    · rw [pool_setPool_self, hpool]
    · rw [pool_setPool_of_ne q hne]
  have hcall : ∀ p' j, p' ≠ p ∨ j ≠ (k, (s.handle k).calls) →
      (s'.pool p').phases j = (s.pool p').phases j ∧
        ((s'.pool p').call j).bytes = ((s.pool p').call j).bytes := by
    intro p' j hj
    rw [hpools]
    exact phases_setPool hm hj
  have hnew : s'.pool p = q := by
    rw [hpools, pool_setPool_self]
  exact
    { pools := fun p' => by
        rcases eq_or_ne p' p with rfl | hne
        · rw [hnew]
          exact hinv
        · rw [hpools, pool_setPool_of_ne q hne]
          exact hi.pools p'
      caps := fun p' => by
        rw [hout p']
        exact hi.caps p'
      conserved := fun p' => by
        refine conserved_of_one s' hk hsize (fun k' hne p'' => ?_) ?_ (hi.conserved p')
        · refine charge_congr (hothers k' hne) (fun r m' => ?_) p''
          rw [hpools]
          exact weight_setPool hm (.inr fun he => hne (congrArg Prod.fst he))
        · rw [hout p', charge, charge, underWay, underWay, linked, linked, hself, hnone]
          simp only [hcur, callWeight, hnew]
          rw [← hweight p']
          omega
      le_cap := fun p' => by
        rw [hout p']
        exact hi.le_cap p'
      le_highWater := fun p' => by
        rw [hout p']
        exact hi.le_highWater p'
      unused := fun j hj => by
        rw [hsize] at hj
        rw [hothers j (by omega)]
        exact hi.unused j hj
      fresh := fun p' k' m' hm' => by
        rcases eq_or_ne k' k with rfl | hne
        · rw [hself] at hm'
          have hm'' : (s.handle k').calls + 1 ≤ m' := hm'
          rw [(hcall p' (k', m') (.inr fun he => by have := (Prod.mk.inj he).2; omega)).1]
          exact hi.fresh p' k' m' (by omega)
        · rw [hothers k' hne] at hm'
          rw [(hcall p' (k', m') (.inr fun he => hne (congrArg Prod.fst he))).1]
          exact hi.fresh p' k' m' hm'
      active := fun p' k' m' hne hact => by
        by_cases he : p' = p ∧ (k', m') = (k, (s.handle k).calls)
        · obtain ⟨rfl, he⟩ := he
          obtain ⟨rfl, rfl⟩ := Prod.mk.inj he
          rw [hself]
          exact hcur
        · obtain ⟨hphase, -⟩ := hcall p' (k', m') (not_and_or.mp he)
          rw [hphase] at hne hact
          have hold := hi.active p' k' m' hne hact
          rcases eq_or_ne k' k with rfl | hk'
          · rw [hnone] at hold
            cases hold
          · rw [hothers k' hk']
            exact hold
      bytes_eq := fun p' k' m' hc => by
        rcases eq_or_ne k' k with rfl | hk'
        · rw [hself] at hc ⊢
          obtain ⟨rfl, rfl⟩ := Prod.mk.inj (Option.some.inj (hcur.symm.trans hc))
          rw [hnew]
          exact hbytes
        · rw [hothers k' hk'] at hc ⊢
          rw [(hcall p' (k', m') (.inr fun he => hk' (congrArg Prod.fst he))).2]
          exact hi.bytes_eq p' k' m' hc
      goals := fun j => by
        rcases eq_or_ne j k with rfl | hne
        · rw [hself]
          exact goalOk_congr rfl rfl hgoal
        · rw [hothers j hne]
          exact hi.goals j }

/-! ### The operations -/

theorem count_links (j : ℕ) (c : Component) (p : PoolId) :
    (PoolId.links j c).count p = if p ∈ PoolId.links j c then 1 else 0 := by
  have hnodup : (PoolId.links j c).Nodup := by simp [PoolId.links]
  exact hnodup.count

/-- The share of a reservation in its pools, as a count. -/
theorem linked_of_live {r : TransferReservation} (hl : (s.handle k).live = some r) (p : PoolId) :
    s.linked k p = r.bytes * (PoolId.links (s.handle k).job r.component).count p := by
  rw [linked, hl, count_links]
  simp only [mul_ite, mul_one, mul_zero]

theorem linked_of_none (hl : (s.handle k).live = none) (p : PoolId) : s.linked k p = 0 := by
  rw [linked, hl]

/-- The charge of a handle between two calls. -/
theorem charge_of_none (hn : (s.handle k).work.current = none) (p : PoolId) :
    s.charge k p = s.linked k p + (s.handle k).work.bytes * (s.handle k).work.held.count p := by
  rw [charge, underWay, hn]
  rfl

theorem LedgerInv.setWork (hi : LedgerInv cap s) (hk : k < s.size) {w : LedgerWork}
    (hcharge : ∀ p, w.bytes * w.held.count p = s.underWay k p) (hnone : w.current = none)
    (hsettled : ∀ p m, (s.handle k).work.current = some (p, m) →
      ((s.pool p).phases (k, m)).isSettled = true)
    (hgoal : (s.handle k).goalOk cap w) : LedgerInv cap (s.setWork k w) := by
  refine hi.setHandle hk (fun p => ?_) rfl hnone hsettled (goalOk_congr rfl rfl hgoal)
  have hcur : ((s.setHandle k { s.handle k with work := w }).handle k).work.current = none := by
    rw [handle_setHandle_self]
    exact hnone
  rw [charge_of_none hcur, charge, ← hcharge p, linked, linked, handle_setHandle_self]

/-- All pools of the acquisition are charged. -/
theorem LedgerInv.acquired (hi : LedgerInv cap s) {goal : AcquireGoal} {n : ℕ}
    {taken : List PoolId} {call : Option ℕ}
    (hw : (s.handle k).work = .acquiring goal n taken [] call) :
    LedgerInv cap (s.acquired cap k n goal) := by
  have hk : k < s.size := hi.lt_size (by simp [hw])
  have hgoal := hi.goals k
  have hcur : (s.handle k).work.current = none := by
    rw [hw]
    rfl
  have hsettled : ∀ p m, (s.handle k).work.current = some (p, m) →
      ((s.pool p).phases (k, m)).isSettled = true := by
    intro p m hc
    rw [hcur] at hc
    cases hc
  have hold : ∀ p, s.charge k p = s.linked k p + n * taken.reverse.count p := by
    intro p
    rw [charge_of_none hcur, hw, List.count_reverse]
    rfl
  rw [hw] at hgoal
  rcases goal with c | - | dst
  · obtain ⟨hlive, -, hlinks⟩ := hgoal
    rw [List.append_nil] at hlinks
    refine hi.setHandle hk (fun p => ?_) rfl rfl hsettled trivial
    rw [hold, linked_of_none hlive, hlinks, zero_add, charge_of_none,
      linked_of_live (r := ⟨c, n, KDown.tightestCap cap (s.handle k).job c⟩)]
    all_goals rw [handle_setHandle_self]
    · rfl
    · rfl
  · obtain ⟨r, hlive, hlinks⟩ := hgoal
    rw [List.append_nil] at hlinks
    refine hi.setHandle hk (fun p => ?_) rfl rfl hsettled trivial
    rw [hold, linked_of_live hlive, hlinks, ← Nat.add_mul, charge_of_none,
      linked_of_live (r := { r with bytes := r.bytes + n })]
    all_goals rw [handle_setHandle_self]
    · rfl
    · rw [hlive]
      rfl
    · rfl
  · obtain ⟨r, hlive, rfl, htaken⟩ := hgoal
    rw [List.append_nil] at htaken
    simp only [TransferLedger.acquired, hlive]
    refine hi.setHandle hk (fun p => ?_) rfl rfl hsettled trivial
    rw [hold, linked_of_live hlive, htaken, charge_of_none,
      linked_of_live (r := { r with component := dst })]
    all_goals rw [handle_setHandle_self]
    · show r.bytes * (PoolId.links (s.handle k).job dst).count p +
          r.bytes * List.count p [PoolId.component (s.handle k).job r.component] = _
      rw [← Nat.mul_add, ← Nat.mul_add]
      congr 1
      simp only [PoolId.links, List.count_cons, List.count_nil]
      omega
    · rfl

/-- A call of a handle begins in its pool, and the handle waits for it. -/
theorem startCall_cases {p : PoolId} {e : ℕ × ℕ → PoolCallEvent (ℕ × ℕ)} {w : ℕ → LedgerWork}
    {s' : TransferLedger} (hs : s.startCall k p e w = some s') :
    ∃ q, (s.pool p).step (e (k, (s.handle k).calls)) = some q ∧
      s' = (s.setPool p q).setHandle k
        { s.handle k with work := w (s.handle k).calls, calls := (s.handle k).calls + 1 } := by
  obtain ⟨q, hq, rfl⟩ := Option.map_eq_some_iff.mp hs
  exact ⟨q, hq, rfl⟩

/-- The call of an acquisition begins. -/
theorem LedgerInv.startAcquire (hi : LedgerInv cap s) {goal : AcquireGoal} {n : ℕ}
    {taken todo : List PoolId} {p : PoolId}
    (hw : (s.handle k).work = .acquiring goal n taken (p :: todo) none) {s' : TransferLedger}
    (hs : s.startCall k p (fun i => .acquire i n)
      (fun m => .acquiring goal n taken (p :: todo) (some m)) = some s') : LedgerInv cap s' := by
  obtain ⟨q, hq, rfl⟩ := startCall_cases hs
  have hfresh := hi.fresh p k _ le_rfl
  have hq' : q = { s.pool p with history := (s.pool p).history.start (k, (s.handle k).calls) }.begin
      (k, (s.handle k).calls) n .probing := by
    simp only [PoolSystem.step, show ((s.pool p).call (k, (s.handle k).calls)).phase = .unused from
      hfresh, Option.some.injEq] at hq
    exact hq.symm
  have hcall : q.call (k, (s.handle k).calls) = ⟨n, .probing, false⟩ := by
    rw [hq']
    exact Function.update_self ..
  have hmoves : (s.pool p).Moves q (k, (s.handle k).calls) := by
    have hb : (s.pool p).Moves ((s.pool p).begin (k, (s.handle k).calls) n .probing)
      (k, (s.handle k).calls) := PoolSystem.moves_begin n .probing
    rw [hq']
    exact { hb with }
  refine hi.start_call (hi.lt_size (by simp [hw])) (by rw [hw]; rfl) ((hi.pools p).step hq)
    hmoves (by rw [hq']; rfl) (by simp [PoolSystem.phases, hcall]) rfl (by rw [hcall]; rfl)
    (fun p' => ?_) ?_
  · rw [hw, hcall]
    simp [PoolCall.weight, PoolPhase.isCharged, LedgerWork.bytes, LedgerWork.held]
  · have hgoal := hi.goals k
    rw [hw] at hgoal
    rcases goal with c | - | dst <;> exact hgoal

/-- The call of a release begins. -/
theorem LedgerInv.startRelease (hi : LedgerInv cap s) {n : ℕ} {todo : List PoolId} {p : PoolId}
    (hw : (s.handle k).work = .releasing n (p :: todo) none) {s' : TransferLedger}
    (hs : s.startCall k p (fun i => .release i n)
      (fun m => .releasing n (p :: todo) (some m)) = some s') : LedgerInv cap s' := by
  obtain ⟨q, hq, rfl⟩ := startCall_cases hs
  have hfresh := hi.fresh p k _ le_rfl
  have hq' : q = (s.pool p).begin (k, (s.handle k).calls) n .releasing := by
    simp only [PoolSystem.step, show ((s.pool p).call (k, (s.handle k).calls)).phase = .unused from
      hfresh, Option.some.injEq] at hq
    exact hq.symm
  have hcall : q.call (k, (s.handle k).calls) = ⟨n, .releasing, false⟩ := by
    rw [hq']
    exact Function.update_self ..
  have hmoves : (s.pool p).Moves q (k, (s.handle k).calls) := by
    rw [hq']
    exact PoolSystem.moves_begin n .releasing
  refine hi.start_call (hi.lt_size (by simp [hw])) (by rw [hw]; rfl) ((hi.pools p).step hq)
    hmoves (by rw [hq']; rfl) (by simp [PoolSystem.phases, hcall]) rfl (by rw [hcall]; rfl)
    (fun p' => ?_) trivial
  rw [hw, hcall]
  show n * todo.count p' + (if p = p' then n else 0) = n * (p :: todo).count p'
  rw [List.count_cons]
  split <;> simp_all [Nat.mul_add]

/-- No release returns more than its pool counts. -/
theorem LedgerInv.release_le (hi : LedgerInv cap s) {p : PoolId} {i : ℕ × ℕ}
    (h : (s.pool p).phases i = .releasing) :
    ((s.pool p).call i).bytes ≤ (s.pool p).pool.outstanding := by
  obtain ⟨k, m⟩ := i
  have hcur := hi.active p k m (by simp [h]) (by rw [h]; rfl)
  have hk : k < s.size := hi.lt_size (by rintro hw; rw [hw] at hcur; cases hcur)
  have hle := hi.charge_le hk p
  have hweight : ((s.pool p).call (k, m)).weight = ((s.pool p).call (k, m)).bytes := by
    rw [PoolCall.weight, show ((s.pool p).call (k, m)).phase = .releasing from h]
    rfl
  rw [charge, underWay, hcur, callWeight, if_pos rfl, hweight] at hle
  omega

/-- The current call of a handle takes its next step. -/
theorem LedgerInv.stepCall (hi : LedgerInv cap s) {p : PoolId} {m : ℕ}
    (hcur : (s.handle k).work.current = some (p, m)) {s' : TransferLedger}
    (hs : s.stepCall k p m = some s') : LedgerInv cap s' := by
  obtain ⟨q, hq, rfl⟩ := Option.map_eq_some_iff.mp hs
  have hused : (s.pool p).phases (k, m) ≠ .unused := by
    intro hun
    simp only [PoolSystem.step, show ((s.pool p).call (k, m)).phase = .unused from hun,
      PoolSystem.next] at hq
    cases hq
  refine hi.current_step hcur ((hi.pools p).step hq) (PoolSystem.balanced_of_next hq ?_) hused
  exact hi.release_le

/-- What the operation holds when its current call has ended. -/
theorem underWay_of_current {p : PoolId} {m : ℕ} (hcur : (s.handle k).work.current = some (p, m))
    (p' : PoolId) : s.underWay k p' = (s.handle k).work.bytes * (s.handle k).work.held.count p' +
      if p = p' then ((s.pool p).call (k, m)).weight else 0 := by
  rw [underWay, hcur]
  rfl

/-- A call goes on, by what it is doing. -/
theorem LedgerInv.advance (hi : LedgerInv cap s) {s' : TransferLedger}
    (hs : s.advance cap k (s.handle k).work = some s') : LedgerInv cap s' := by
  rcases hw : (s.handle k).work with - | ⟨goal, n, taken, - | ⟨p, todo⟩, - | m⟩ |
    ⟨n, - | ⟨p, todo⟩, - | m⟩ <;> rw [hw] at hs
  · cases hs
  · rw [← Option.some.inj hs]
    exact hi.acquired hw
  · rw [← Option.some.inj hs]
    exact hi.acquired hw
  · exact hi.startAcquire hw hs
  · have hcur : (s.handle k).work.current = some (p, m) := by
      rw [hw]
      rfl
    have hk : k < s.size := hi.lt_size (by simp [hw])
    have hbytes : ((s.pool p).call (k, m)).bytes = n := by
      rw [hi.bytes_eq p k m hcur, hw]
      rfl
    have hgoal := hi.goals k
    rw [hw] at hgoal
    -- the call has ended in phase `ph`
    have hend : ∀ {ph : PoolPhase (ℕ × ℕ)}, (s.pool p).phases (k, m) = ph → ph.isSettled = true →
        ∀ q m', (s.handle k).work.current = some (q, m') →
          ((s.pool q).phases (k, m')).isSettled = true := by
      intro ph hph hset q m' hc
      obtain ⟨rfl, rfl⟩ := Prod.mk.inj (Option.some.inj (hcur.symm.trans hc))
      rw [hph]
      exact hset
    have hrollback : ∀ {ph : PoolPhase (ℕ × ℕ)}, (s.pool p).phases (k, m) = ph →
        ph.isSettled = true → ph.isCharged = false →
        LedgerInv cap (s.setWork k (.releasing n taken none)) := by
      intro ph hph hset hch
      refine hi.setWork hk (fun p' => ?_) (by rcases taken <;> rfl) (hend hph hset) trivial
      have hweight : ((s.pool p).call (k, m)).weight = 0 := by
        rw [PoolCall.weight, show ((s.pool p).call (k, m)).phase = ph from hph, hch]
        rfl
      rw [underWay_of_current hcur, hw, hweight, ite_self, add_zero]
      rfl
    simp only [TransferLedger.advance] at hs
    split at hs
    · next hph =>
      rw [← Option.some.inj hs]
      refine hi.setWork hk (fun p' => ?_) (by rcases todo <;> rfl) (hend hph rfl) ?_
      · have hweight : ((s.pool p).call (k, m)).weight = n := by
          rw [PoolCall.weight, show ((s.pool p).call (k, m)).phase = .acquired from hph, hbytes]
          rfl
        rw [underWay_of_current hcur, hw, hweight]
        show n * (p :: taken).count p' = n * taken.count p' + if p = p' then n else 0
        rw [List.count_cons]
        split <;> simp_all [Nat.mul_add]
      · rcases goal with c | - | dst
        all_goals simpa [LedgerHandle.goalOk] using hgoal
    · next hph =>
      rw [← Option.some.inj hs]
      exact hrollback hph rfl rfl
    · next hph =>
      rw [← Option.some.inj hs]
      exact hrollback hph rfl rfl
    · exact hi.stepCall hcur hs
  · rw [← Option.some.inj hs]
    refine hi.setWork (hi.lt_size (by simp [hw])) (fun p => ?_) rfl ?_ trivial
    · rw [underWay, hw]
      rfl
    · intro q m hc
      rw [hw] at hc
      cases hc
  · rw [← Option.some.inj hs]
    refine hi.setWork (hi.lt_size (by simp [hw])) (fun p => ?_) rfl ?_ trivial
    · rw [underWay, hw]
      rfl
    · intro q m hc
      rw [hw] at hc
      cases hc
  · exact hi.startRelease hw hs
  · have hcur : (s.handle k).work.current = some (p, m) := by
      rw [hw]
      rfl
    simp only [TransferLedger.advance] at hs
    split at hs
    · next hph =>
      rw [← Option.some.inj hs]
      refine hi.setWork (hi.lt_size (by simp [hw])) (fun p' => ?_) (by rcases todo <;> rfl) ?_
        trivial
      · have hweight : ((s.pool p).call (k, m)).weight = 0 := by
          rw [PoolCall.weight, show ((s.pool p).call (k, m)).phase = .released from hph]
          rfl
        rw [underWay_of_current hcur, hw, hweight, ite_self, add_zero]
        rfl
      · intro q m' hc
        obtain ⟨rfl, rfl⟩ := Prod.mk.inj (Option.some.inj (hcur.symm.trans hc))
        rw [hph]
        rfl
    · exact hi.stepCall hcur hs

theorem LedgerInv.cancel (hi : LedgerInv cap s) {s' : TransferLedger}
    (hs : s.cancel k (s.handle k).work = some s') : LedgerInv cap s' := by
  rcases hw : (s.handle k).work with - | ⟨goal, n, taken, - | ⟨p, todo⟩, - | m⟩ | ⟨n, todo, call⟩ <;>
    rw [hw] at hs
  · cases hs
  · cases hs
  · cases hs
  · cases hs
  · obtain ⟨q, hq, rfl⟩ := Option.map_eq_some_iff.mp hs
    obtain ⟨hb, -⟩ := PoolSystem.balanced_of_cancel hq
    refine hi.current_step (by rw [hw]; rfl) ((hi.pools p).step hq) hb ?_
    intro hun
    simp only [PoolSystem.step, show ((s.pool p).call (k, m)).phase = .unused from hun] at hq
    cases hq
  · cases hs

/-- Only an idle handle with a reservation is acted on. -/
theorem onLive_cases {f : TransferReservation → TransferLedger} {s' : TransferLedger}
    (hs : s.onLive k f = some s') :
    ∃ r, (s.handle k).live = some r ∧ (s.handle k).work = .idle ∧ s' = f r := by
  simp only [onLive] at hs
  split at hs
  · next r hlive hidle => exact ⟨r, hlive, hidle, (Option.some.inj hs).symm⟩
  · cases hs

/-- A live reservation that is not busy is charged its bytes. -/
theorem charge_live {r : TransferReservation} (hlive : (s.handle k).live = some r)
    (hidle : (s.handle k).work = .idle) (p : PoolId) :
    s.charge k p = r.bytes * (PoolId.links (s.handle k).job r.component).count p := by
  rw [charge_of_none (by rw [hidle]; rfl), linked_of_live hlive, hidle]
  rfl

/-- What reservation `live` of job `j` is charged on pool `p`. -/
def liveBytes (j : ℕ) (p : PoolId) : Option TransferReservation → ℕ
  | none => 0
  | some r => r.bytes * (PoolId.links j r.component).count p

section Live

variable {r : TransferReservation} (hi : LedgerInv cap s) (hlive : (s.handle k).live = some r)
  (hidle : (s.handle k).work = .idle)

include hi hlive hidle

/-- An operation begins and does not touch the reservation. -/
theorem LedgerInv.beginAcquire {goal : AcquireGoal} {n : ℕ} {todo : List PoolId}
    (hgoal : (s.handle k).goalOk cap (.acquiring goal n [] todo none)) :
    LedgerInv cap (s.setWork k (.acquiring goal n [] todo none)) := by
  refine hi.setWork (hi.lt_size_of_live hlive) (fun p => ?_) (by rcases todo <;> rfl) ?_ hgoal
  · rw [underWay, hidle]
    rfl
  · intro q m hc
    rw [hidle] at hc
    cases hc

/-- Bytes are set free: the reservation keeps the others. -/
theorem LedgerInv.beginRelease {live : Option TransferReservation} {n : ℕ}
    (hsplit : ∀ p, s.charge k p = liveBytes (s.handle k).job p live +
        n * (PoolId.links (s.handle k).job r.component).reverse.count p) :
    LedgerInv cap (s.setHandle k
      { s.handle k with
        live := live
        work := .releasing n (PoolId.links (s.handle k).job r.component).reverse none }) := by
  refine hi.setHandle (hi.lt_size_of_live hlive) (fun p => ?_) rfl rfl ?_ trivial
  · rw [hsplit p, charge_of_none (by rw [handle_setHandle_self]; rfl), handle_setHandle_self]
    rcases live with - | r'
    · rw [linked_of_none (by rw [handle_setHandle_self])]
      rfl
    · rw [linked_of_live (by rw [handle_setHandle_self]), handle_setHandle_self]
      rfl
  · intro q m hc
    rw [hidle] at hc
    cases hc

/-- **A growth keeps the invariant.** -/
theorem LedgerInv.grow (extra : ℕ) : LedgerInv cap (s.grow k extra r) := by
  rw [TransferLedger.grow]
  split_ifs
  · exact hi
  · exact hi
  · exact hi.beginAcquire hlive hidle ⟨r, hlive, rfl⟩

/-- **A retag keeps the invariant.** -/
theorem LedgerInv.retag (dst : Component) : LedgerInv cap (s.retag cap k dst r) := by
  rw [TransferLedger.retag]
  split_ifs
  · exact hi
  · exact hi
  · exact hi.beginAcquire hlive hidle ⟨r, hlive, rfl, rfl⟩

theorem LedgerInv.shrinkTo (bytes : ℕ) : LedgerInv cap (s.shrinkTo k bytes r) := by
  rw [TransferLedger.shrinkTo]
  split_ifs with hle
  · exact hi
  · refine hi.beginRelease hlive hidle fun p => ?_
    rw [charge_live hlive hidle, List.count_reverse]
    show _ = bytes * _ + (r.bytes - bytes) * _
    rw [← Nat.add_mul]
    congr 1
    omega

theorem LedgerInv.reconcile (actual : ℕ) : LedgerInv cap (s.reconcile k actual r) := by
  rw [TransferLedger.reconcile]
  split_ifs
  · exact hi.shrinkTo hlive hidle actual
  · exact hi

theorem LedgerInv.drop : LedgerInv cap (s.drop k r) := by
  refine hi.beginRelease hlive hidle fun p => ?_
  rw [charge_live hlive hidle, List.count_reverse]
  exact (zero_add _).symm

end Live

/-- **A reservation keeps the invariant.** -/
theorem LedgerInv.reserve (hi : LedgerInv cap s) (j : ℕ) (c : Component) (bytes : ℕ) :
    LedgerInv cap (s.reserve cap j c bytes) := by
  rw [TransferLedger.reserve]
  split_ifs with hover
  · exact hi
  · generalize hh : ({ s.handle s.size with
        job := j
        work := LedgerWork.acquiring (.reserve c) bytes [] (PoolId.links j c) none } :
          LedgerHandle) = h
    obtain ⟨hlive, hidle⟩ := hi.unused s.size le_rfl
    have hhlive : h.live = none := by
      rw [← hh]
      exact hlive
    have hzero : ∀ p, (s.setHandle s.size h).charge s.size p = 0 := by
      intro p
      have hself : (s.setHandle s.size h).handle s.size = h := handle_setHandle_self h
      rw [charge_of_none (by rw [hself, ← hh]; rfl), linked_of_none (by rw [hself, hhlive]), hself,
        ← hh]
      simp [LedgerWork.held]
    exact
      { pools := hi.pools
        caps := hi.caps
        conserved := fun p => by
          show (s.pool p).pool.outstanding
            = ∑ k ∈ Finset.range (s.size + 1), (s.setHandle s.size h).charge k p
          rw [Finset.sum_range_succ, hzero p, add_zero, hi.conserved p]
          refine Finset.sum_congr rfl fun k hk => ?_
          have hsame : (s.setHandle s.size h).charge k p = s.charge k p :=
            charge_congr (handle_setHandle_of_ne h (Finset.mem_range.mp hk).ne) (fun _ _ => rfl) p
          exact hsame.symm
        le_cap := hi.le_cap
        le_highWater := hi.le_highWater
        unused := fun k hk => by
          have hne : k ≠ s.size := by
            rintro rfl
            exact absurd hk (Nat.not_succ_le_self _)
          show ((s.setHandle s.size h).handle k).live = none ∧ _
          rw [handle_setHandle_of_ne h hne]
          exact hi.unused k (Nat.le_of_succ_le hk)
        fresh := fun p k m hm => by
          refine hi.fresh p k m ?_
          rcases eq_or_ne k s.size with rfl | hne
          · rw [show ((s.setHandle s.size h).handle s.size) = h from handle_setHandle_self h,
              ← hh] at hm
            exact hm
          · rw [show ((s.setHandle s.size h).handle k) = s.handle k from
              handle_setHandle_of_ne h hne] at hm
            exact hm
        active := fun p k m hne hact => by
          have hcur := hi.active p k m hne hact
          have hk : k ≠ s.size := by
            rintro rfl
            rw [hidle] at hcur
            cases hcur
          show ((s.setHandle s.size h).handle k).work.current = _
          rw [handle_setHandle_of_ne h hk]
          exact hcur
        bytes_eq := fun p k m hcur => by
          have hcur' : ((s.setHandle s.size h).handle k).work.current = some (p, m) := hcur
          have hk : k ≠ s.size := by
            rintro rfl
            rw [handle_setHandle_self, ← hh] at hcur'
            cases hcur'
          show _ = ((s.setHandle s.size h).handle k).work.bytes
          rw [handle_setHandle_of_ne h hk] at hcur' ⊢
          exact hi.bytes_eq p k m hcur'
        goals := fun k => by
          show ((s.setHandle s.size h).handle k).goalOk cap _
          rcases eq_or_ne k s.size with rfl | hne
          · rw [show ((s.setHandle s.size h).handle s.size) = h from handle_setHandle_self h]
            rw [← hh]
            exact ⟨hlive, not_lt.mp hover, rfl⟩
          · rw [show ((s.setHandle s.size h).handle k) = s.handle k from
              handle_setHandle_of_ne h hne]
            exact hi.goals k }

/-- **Every event of the ledger keeps the invariant.** -/
theorem LedgerInv.step (hi : LedgerInv cap s) {e : LedgerEvent} {s' : TransferLedger}
    (hs : s.step cap e = some s') : LedgerInv cap s' := by
  rcases e with ⟨j, c, bytes⟩ | ⟨k, extra⟩ | ⟨k, bytes⟩ | ⟨k, actual⟩ | ⟨k, dst⟩ | k | k | k
  · rw [← Option.some.inj hs]
    exact hi.reserve j c bytes
  · obtain ⟨r, hlive, hidle, rfl⟩ := onLive_cases hs
    exact hi.grow hlive hidle extra
  · obtain ⟨r, hlive, hidle, rfl⟩ := onLive_cases hs
    exact hi.shrinkTo hlive hidle bytes
  · obtain ⟨r, hlive, hidle, rfl⟩ := onLive_cases hs
    exact hi.reconcile hlive hidle actual
  · obtain ⟨r, hlive, hidle, rfl⟩ := onLive_cases hs
    exact hi.retag hlive hidle dst
  · obtain ⟨r, hlive, hidle, rfl⟩ := onLive_cases hs
    exact hi.drop hlive hidle
  · exact hi.advance hs
  · exact hi.cancel hs

/-! ### Every pool on its own -/

/-- Pool `p` stays as it is, or takes a step of its own. -/
def PoolSteps (s s' : TransferLedger) (p : PoolId) : Prop :=
  s'.pool p = s.pool p ∨ ∃ e, (s.pool p).step e = some (s'.pool p)

theorem PoolSteps.setPool {p : PoolId} {e : PoolCallEvent (ℕ × ℕ)} {q : PoolSystem (ℕ × ℕ)}
    (hq : (s.pool p).step e = some q) (p' : PoolId) : PoolSteps s (s.setPool p q) p' := by
  rcases eq_or_ne p' p with rfl | hne
  · refine .inr ⟨e, ?_⟩
    rw [pool_setPool_self]
    exact hq
  · exact .inl (pool_setPool_of_ne q hne)

theorem PoolSteps.startCall {p : PoolId} {e : ℕ × ℕ → PoolCallEvent (ℕ × ℕ)}
    {w : ℕ → LedgerWork} {s' : TransferLedger} (hs : s.startCall k p e w = some s') (p' : PoolId) :
    PoolSteps s s' p' := by
  obtain ⟨q, hq, rfl⟩ := startCall_cases hs
  exact PoolSteps.setPool hq p'

theorem PoolSteps.stepCall {p : PoolId} {m : ℕ} {s' : TransferLedger}
    (hs : s.stepCall k p m = some s') (p' : PoolId) : PoolSteps s s' p' := by
  obtain ⟨q, hq, rfl⟩ := Option.map_eq_some_iff.mp hs
  exact PoolSteps.setPool hq p'

/-- A call steps in no pool but its own. -/
theorem PoolSteps.advance {s' : TransferLedger} {w : LedgerWork}
    (hs : s.advance cap k w = some s') (p' : PoolId) : PoolSteps s s' p' := by
  rcases w with - | ⟨goal, n, taken, - | ⟨p, todo⟩, - | m⟩ | ⟨n, - | ⟨p, todo⟩, - | m⟩
  · cases hs
  · rw [← Option.some.inj hs]
    refine .inl ?_
    rcases goal with c | - | dst
    · rfl
    · rfl
    · simp only [TransferLedger.acquired]
      split <;> rfl
  · rw [← Option.some.inj hs]
    refine .inl ?_
    rcases goal with c | - | dst
    · rfl
    · rfl
    · simp only [TransferLedger.acquired]
      split <;> rfl
  · simp only [TransferLedger.advance] at hs
    exact PoolSteps.startCall hs p'
  · simp only [TransferLedger.advance] at hs
    split at hs
    · exact (Option.some.inj hs) ▸ .inl rfl
    · exact (Option.some.inj hs) ▸ .inl rfl
    · exact (Option.some.inj hs) ▸ .inl rfl
    · exact PoolSteps.stepCall hs p'
  · exact (Option.some.inj hs) ▸ .inl rfl
  · exact (Option.some.inj hs) ▸ .inl rfl
  · simp only [TransferLedger.advance] at hs
    exact PoolSteps.startCall hs p'
  · simp only [TransferLedger.advance] at hs
    split at hs
    · exact (Option.some.inj hs) ▸ .inl rfl
    · exact PoolSteps.stepCall hs p'

/-- What an operation does before its first call leaves the pools alone. -/
theorem poolSteps_of_step {e : LedgerEvent} {s' : TransferLedger} (hs : s.step cap e = some s')
    (p : PoolId) : PoolSteps s s' p := by
  rcases e with ⟨j, c, bytes⟩ | ⟨k, extra⟩ | ⟨k, bytes⟩ | ⟨k, actual⟩ | ⟨k, dst⟩ | k | k | k
  · rw [← Option.some.inj hs, TransferLedger.reserve]
    split <;> exact .inl rfl
  · obtain ⟨r, -, -, rfl⟩ := onLive_cases hs
    rw [TransferLedger.grow]
    split_ifs <;> exact .inl rfl
  · obtain ⟨r, -, -, rfl⟩ := onLive_cases hs
    rw [TransferLedger.shrinkTo]
    split_ifs <;> exact .inl rfl
  · obtain ⟨r, -, -, rfl⟩ := onLive_cases hs
    rw [TransferLedger.reconcile, TransferLedger.shrinkTo]
    split_ifs <;> exact .inl rfl
  · obtain ⟨r, -, -, rfl⟩ := onLive_cases hs
    rw [TransferLedger.retag]
    split_ifs <;> exact .inl rfl
  · obtain ⟨r, -, -, rfl⟩ := onLive_cases hs
    exact .inl rfl
  · exact PoolSteps.advance hs p
  · simp only [TransferLedger.step] at hs
    rcases hw : (s.handle k).work with - | ⟨goal, n, taken, - | ⟨q, todo⟩, - | m⟩ |
      ⟨n, todo, call⟩ <;> rw [hw] at hs
    · cases hs
    · cases hs
    · cases hs
    · cases hs
    · obtain ⟨q', hq, rfl⟩ := Option.map_eq_some_iff.mp hs
      exact PoolSteps.setPool hq p
    · cases hs

/-- High-water marks never go down. -/
theorem LedgerInv.highWater_le (hi : LedgerInv cap s) {e : LedgerEvent} {s' : TransferLedger}
    (hs : s.step cap e = some s') (p : PoolId) :
    (s.pool p).pool.highWater ≤ (s'.pool p).pool.highWater := by
  rcases poolSteps_of_step hs p with heq | ⟨⟨i, n⟩ | ⟨i, n⟩ | i | i, hq⟩
  · rw [heq]
  · simp only [PoolSystem.step] at hq
    split at hq
    · rw [← Option.some.inj hq]
      exact le_rfl
    · cases hq
  · simp only [PoolSystem.step] at hq
    split at hq
    · rw [← Option.some.inj hq]
      exact le_rfl
    · cases hq
  · exact (PoolSystem.balanced_of_next hq hi.release_le).highWater_le
  · exact (PoolSystem.balanced_of_cancel hq).1.highWater_le

/-! ### Every interleaving -/

/-- The invariant holds in every run. -/
theorem inv_of_reach (h : Reach (step cap) (fun _ _ => True) (· = new cap) s) : LedgerInv cap s :=
  h.invariant (fun _ hs => hs ▸ LedgerInv.new cap) fun _ _ _ hi _ hs => hi.step hs

/-- What a handle's release still owes, when no release is under way. -/
theorem owed_of_not_releasing (h : (s.handle k).work.isAcquiring = true ∨ (s.handle k).work = .idle)
    (p : PoolId) : s.owed k p = 0 := by
  rcases h with h | h
  · rw [owed, if_pos h]
  · rw [owed, underWay, h]
    rfl

/-- **The ledger is conserved.**  For every interleaving of the operations on
any number of reservations, down to the steps under one pool's mutex: every pool
counts what the live reservations linked to it are charged, what acquisitions in
progress have taken from it and what releases in progress have not returned yet;
it never counts more than its cap, its high-water mark is at least that and
never goes down, no subtraction underflows, and a pool counts nothing when no
reservation is live and no operation is in progress. -/
theorem ledger_conserved (h : Reach (step cap) (fun _ _ => True) (· = new cap) s) (p : PoolId) :
    (s.pool p).pool.outstanding
      = ∑ k ∈ Finset.range s.size, (s.linked k p + s.taken k p + s.owed k p) ∧
    ((∀ k, (s.handle k).work.isAcquiring = true ∨ (s.handle k).work = .idle) →
      (s.pool p).pool.outstanding = ∑ k ∈ Finset.range s.size, (s.linked k p + s.taken k p)) ∧
    (s.pool p).pool.outstanding ≤ cap p ∧
    (s.pool p).pool.outstanding ≤ (s.pool p).pool.highWater ∧
    (∀ e s', s.step cap e = some s' → (s.pool p).pool.highWater ≤ (s'.pool p).pool.highWater) ∧
    (∀ i, (s.pool p).phases i = .releasing →
      ((s.pool p).call i).bytes ≤ (s.pool p).pool.outstanding) ∧
    ((∀ k, (s.handle k).live = none ∧ (s.handle k).work = .idle) →
      (s.pool p).pool.outstanding = 0) := by
  have hi := inv_of_reach h
  have hsum : (s.pool p).pool.outstanding
      = ∑ k ∈ Finset.range s.size, (s.linked k p + s.taken k p + s.owed k p) := by
    rw [hi.conserved p]
    exact Finset.sum_congr rfl fun k _ => s.charge_eq k p
  refine ⟨hsum, fun hquiet => ?_, ?_, hi.le_highWater p, fun e s' hs => hi.highWater_le hs p,
    fun i => hi.release_le, fun hnone => ?_⟩
  · rw [hsum]
    refine Finset.sum_congr rfl fun k _ => ?_
    rw [owed_of_not_releasing (hquiet k), add_zero]
  · rw [← hi.caps p]
    exact hi.le_cap p
  · rw [hi.conserved p]
    refine Finset.sum_eq_zero fun k _ => ?_
    obtain ⟨hlive, hidle⟩ := hnone k
    rw [charge_of_none (by rw [hidle]; rfl), linked_of_none hlive, hidle]
    rfl

/-- A reservation that takes the whole job, and one behind it that is dropped
while it waits. -/
def rollbackRun : List LedgerEvent :=
  LedgerEvent.reserve 0 .writer 8 :: List.replicate 10 (.advance 0) ++
    LedgerEvent.reserve 0 .frames 4 :: List.replicate 7 (.advance 1) ++
    LedgerEvent.cancel 1 :: List.replicate 8 (.advance 1) ++ [LedgerEvent.shrinkTo 0 3] ++
    List.replicate 13 (LedgerEvent.advance 0)

/-- A refused acquisition gives back what it had taken. -/
theorem ledger_conserved_rollbackRun :
    ∃ s, runEvents (step fun _ => 8) (new fun _ => 8) rollbackRun = some s ∧
      (s.handle 0).live = some ⟨.writer, 3, 8⟩ ∧
      (s.pool .controller).pool.outstanding = 3 ∧
      (s.pool .controller).pool.outstanding
        = ∑ k ∈ Finset.range s.size,
          (s.linked k .controller + s.taken k .controller + s.owed k .controller) := by
  have hrun : ∃ s, runEvents (step fun _ => 8) (new fun _ => 8) rollbackRun = some s ∧
      (s.handle 0).live = some ⟨.writer, 3, 8⟩ ∧ (s.pool .controller).pool.outstanding = 3 :=
    ⟨_, rfl, rfl, rfl⟩
  obtain ⟨s, hs, hlive, hout⟩ := hrun
  exact ⟨s, hs, hlive, hout, (ledger_conserved (.of_run (.start rfl) runOk_true hs) _).1⟩

end TransferLedger

end KDown
