/-
KDown/LedgerPoolBalance.lean

What the steps of a call move in a byte pool.

A call weighs what the pool counts for it: its bytes once they are charged,
and the bytes of a release until they are subtracted.  Every step keeps the
balance between the pool's count and the weight of the call that takes it,
as long as no release returns more than the pool counts; everybody else's
weight stays as it is.
-/
import KDown.LedgerPool

namespace KDown

namespace PoolSystem

variable {ι : Type*}

/-- The step concerned call `i` only, as far as bytes go. -/
structure Moves (s s' : PoolSystem ι) (i : ι) : Prop where
  others : ∀ j, j ≠ i → s'.phases j = s.phases j ∧ (s'.call j).bytes = (s.call j).bytes
  cap : s'.pool.cap = s.pool.cap
  highWater_le : s.pool.highWater ≤ s'.pool.highWater

/-- The step kept the pool's books: what it counts more is what the call
weighs more. -/
structure Balanced (s s' : PoolSystem ι) (i : ι) : Prop extends Moves s s' i where
  bytes : (s'.call i).bytes = (s.call i).bytes
  balance : s'.pool.outstanding + (s.call i).weight = s.pool.outstanding + (s'.call i).weight
  le_cap : s.pool.outstanding ≤ s.pool.cap → s'.pool.outstanding ≤ s'.pool.cap
  le_highWater : s.pool.outstanding ≤ s.pool.highWater →
    s'.pool.outstanding ≤ s'.pool.highWater

variable {s : PoolSystem ι} {i : ι}

/-- A change of the call that neither charges nor releases. -/
theorem Balanced.of_call {s' : PoolSystem ι} (hpool : s'.pool = s.pool)
    (hcall : ∀ j, j ≠ i → s'.call j = s.call j) (hbytes : (s'.call i).bytes = (s.call i).bytes)
    (hweight : (s'.call i).weight = (s.call i).weight) : Balanced s s' i where
  others := fun j hj => by
    rw [phases, phases, hcall j hj]
    exact ⟨rfl, rfl⟩
  cap := by rw [hpool]
  highWater_le := by rw [hpool]
  bytes := hbytes
  balance := by rw [hpool, hweight]
  le_cap := by rw [hpool]; exact id
  le_highWater := by rw [hpool]; exact id

variable [DecidableEq ι]

theorem call_setPhase_self (ph : PoolPhase ι) :
    (s.setPhase i ph).call i = { s.call i with phase := ph } := Function.update_self ..

theorem call_notifyOne (head : Option ι) (j : ι) :
    ((s.notifyOne head).call j).phase = (s.call j).phase ∧
      ((s.notifyOne head).call j).bytes = (s.call j).bytes := by
  rcases head with - | w
  · exact ⟨rfl, rfl⟩
  · rcases eq_or_ne j w with rfl | hne
    · simp [notifyOne, setPermit]
    · simp [notifyOne, setPermit, Function.update_of_ne hne]

theorem Balanced.setPhase {ph : PoolPhase ι} (h : ph.isCharged = (s.phases i).isCharged) :
    Balanced s (s.setPhase i ph) i := by
  refine .of_call rfl (fun j hj => Function.update_of_ne hj ..) (by rw [call_setPhase_self]) ?_
  rw [call_setPhase_self, PoolCall.weight, PoolCall.weight, h]
  rfl

/-- The bytes of the call are charged. -/
theorem Balanced.charge {ph : PoolPhase ι} (hph : ph.isCharged = true)
    (hold : (s.phases i).isCharged = false) (hfits : s.pool.Fits (s.call i).bytes) :
    Balanced s ((s.admitted i (s.pool.charge (s.call i).bytes)).setPhase i ph) i where
  others := fun j hj => by
    rw [phases_setPhase, Function.update_of_ne hj]
    exact ⟨rfl, by simp [PoolSystem.setPhase, PoolSystem.admitted, Function.update_of_ne hj]⟩
  cap := rfl
  highWater_le := le_max_left ..
  bytes := by rw [call_setPhase_self]; rfl
  balance := by
    have hold' : (s.call i).phase.isCharged = false := hold
    rw [call_setPhase_self, PoolCall.weight, PoolCall.weight, hold', hph]
    rfl
  le_cap := fun _ => hfits.2
  le_highWater := fun _ => le_max_right ..

/-- A change of phase, then a notification. -/
theorem Balanced.notifyOne {s' : PoolSystem ι} (h : Balanced s s' i) (head : Option ι) :
    Balanced s (s'.notifyOne head) i where
  others := fun j hj => by
    rw [phases_notifyOne, (call_notifyOne head j).2]
    exact h.others j hj
  cap := by
    rw [pool_notifyOne]
    exact h.cap
  highWater_le := by
    rw [pool_notifyOne]
    exact h.highWater_le
  bytes := (call_notifyOne head i).2.trans h.bytes
  balance := by
    rw [pool_notifyOne, PoolCall.weight, PoolCall.weight, (call_notifyOne head i).1,
      (call_notifyOne head i).2]
    exact h.balance
  le_cap := by
    rw [pool_notifyOne]
    exact h.le_cap
  le_highWater := by
    rw [pool_notifyOne]
    exact h.le_highWater

/-- Returned bytes are subtracted, when the pool counts as many. -/
theorem Balanced.release {head : Option ι} (hph : s.phases i = .releasing)
    (hle : (s.call i).bytes ≤ s.pool.outstanding) :
    Balanced s ({ s with pool := (s.pool.release (s.call i).bytes).2 }.setPhase i
      (.waking head)) i := by
  have hout : (s.pool.release (s.call i).bytes).2.outstanding
      = s.pool.outstanding - (s.call i).bytes := if_pos hle
  have hold : (s.call i).weight = (s.call i).bytes := by
    rw [PoolCall.weight, show (s.call i).phase = .releasing from hph]
    rfl
  exact
    { others := fun j hj => by
        rw [phases_setPhase, Function.update_of_ne hj]
        exact ⟨rfl, by simp [PoolSystem.setPhase, Function.update_of_ne hj]⟩
      cap := rfl
      highWater_le := le_rfl
      bytes := by rw [call_setPhase_self]
      balance := by
        rw [hold, call_setPhase_self]
        show (s.pool.release (s.call i).bytes).2.outstanding + _ = _ + 0
        rw [hout]
        omega
      le_cap := fun hcap => by
        show (s.pool.release (s.call i).bytes).2.outstanding ≤ s.pool.cap
        rw [hout]
        omega
      le_highWater := fun hhw => by
        show (s.pool.release (s.call i).bytes).2.outstanding ≤ s.pool.highWater
        rw [hout]
        omega }

/-- Every step of a call keeps the books, unless a release would return more
than the pool counts. -/
theorem balanced_of_next {s' : PoolSystem ι} (hs : s.next i (s.phases i) = some s')
    (hle : s.phases i = .releasing → (s.call i).bytes ≤ s.pool.outstanding) :
    Balanced s s' i := by
  rcases hph : s.phases i with - | - | - | - | - | ok | ⟨ok, head⟩ | - | - | - | - | head | - <;>
    rw [hph] at hs
  · cases hs
  · simp only [PoolSystem.next] at hs
    split at hs
    · next p hp =>
      obtain ⟨-, hfits, rfl⟩ := Pool.probeAndAcquire_acquired hp
      rw [← Option.some.inj hs]
      exact .charge rfl (by rw [hph]; rfl) hfits
    · rw [← Option.some.inj hs]
      exact .setPhase (by rw [hph]; rfl)
    · rw [← Option.some.inj hs]
      exact .setPhase (by rw [hph]; rfl)
  · rw [← Option.some.inj hs]
    have hb : Balanced s (s.setPhase i .polling) i := .setPhase (by rw [hph]; rfl)
    exact { hb with }
  · simp only [PoolSystem.next] at hs
    split at hs
    · next p hp =>
      obtain ⟨-, hfits, rfl⟩ := Pool.pollHead_acquired hp
      rw [← Option.some.inj hs]
      exact .charge rfl (by rw [hph]; rfl) hfits
    · rw [← Option.some.inj hs]
      exact .setPhase (by rw [hph]; rfl)
  · simp only [PoolSystem.next] at hs
    split at hs
    · rw [← Option.some.inj hs]
      refine .of_call rfl (fun j hj => ?_) ?_ ?_
      · exact (Function.update_of_ne hj ..).trans (Function.update_of_ne hj ..)
      · simp [PoolSystem.setPhase, PoolSystem.setPermit]
      · rw [call_setPhase_self, PoolCall.weight, PoolCall.weight,
          show (s.call i).phase = .parked from hph]
        rfl
    · cases hs
  · rw [← Option.some.inj hs]
    have hb : Balanced s (s.setPhase i (.handing ok (s.pool.deregister i).1)) i :=
      .setPhase (by rw [hph]; rfl)
    exact { hb with }
  · rw [← Option.some.inj hs]
    refine Balanced.notifyOne (.setPhase ?_) head
    rw [hph]
    rcases ok <;> rfl
  · cases hs
  · cases hs
  · cases hs
  · simp only [PoolSystem.next] at hs
    split at hs
    · next hzero =>
      rw [← Option.some.inj hs]
      refine .of_call rfl (fun j hj => Function.update_of_ne hj ..)
        (by rw [call_setPhase_self]) ?_
      rw [call_setPhase_self, PoolCall.weight, PoolCall.weight, hzero]
      simp
    · rw [← Option.some.inj hs]
      exact .release hph (hle hph)
  · rw [← Option.some.inj hs]
    exact Balanced.notifyOne (.setPhase (by rw [hph]; rfl)) head
  · cases hs

/-- Dropping a waiting call moves no bytes. -/
theorem balanced_of_cancel {s' : PoolSystem ι} (hs : s.step (.cancel i) = some s') :
    Balanced s s' i ∧ s'.phases i = .leaving false := by
  simp only [PoolSystem.step] at hs
  split at hs
  · next hph =>
    rw [← Option.some.inj hs]
    have hb : Balanced s (s.setPhase i (.leaving false)) i :=
      .setPhase (by rw [phases, hph]; rfl)
    refine ⟨{ hb with }, ?_⟩
    rw [phases_setPhase, Function.update_self]
  · cases hs

/-- A new call weighs nothing, or the bytes it is to return. -/
theorem moves_begin (bytes : ℕ) (ph : PoolPhase ι) : Moves s (s.begin i bytes ph) i where
  others := fun j hj => by
    rw [phases_begin, Function.update_of_ne hj]
    exact ⟨rfl, by simp [PoolSystem.begin, Function.update_of_ne hj]⟩
  cap := rfl
  highWater_le := le_rfl

end PoolSystem

end KDown
