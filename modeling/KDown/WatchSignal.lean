/-
KDown/WatchSignal.lean

A versioned signal with many receivers.

A sender counts a version up; every receiver remembers the version it saw
last, and a notification is pending for it while the two differ.  A receiver
that waits sleeps until then.  Because the version only grows, one send is
pending for every receiver until that receiver looks, however many sends
there are and whatever the other receivers do.
-/
import Mathlib.Algebra.Order.Ring.Nat
import Mathlib.Logic.Function.Basic
import Mathlib.Tactic.Common

namespace KDown

/-- A version, and for each receiver the version it saw last. -/
structure Watch (ι : Type*) where
  version : ℕ
  seen : ι → ℕ
  seen_le : ∀ i, seen i ≤ version

namespace Watch

variable {ι : Type*}

/-- All receivers have seen the first version. -/
def new : Watch ι where
  version := 0
  seen := fun _ => 0
  seen_le := fun _ => le_rfl

/-- Publish a change. -/
def send (c : Watch ι) : Watch ι where
  version := c.version + 1
  seen := c.seen
  seen_le := fun i => (c.seen_le i).trans (Nat.le_succ _)

/-- A notification is pending for the receiver. -/
def changed (c : Watch ι) (i : ι) : Bool := c.seen i ≠ c.version

/-- After a send a notification is pending for everyone. -/
@[simp] theorem changed_send (c : Watch ι) (i : ι) : c.send.changed i = true := by
  exact decide_eq_true (Nat.lt_succ_of_le (c.seen_le i)).ne

variable [DecidableEq ι]

/-- The receiver looks at the current version. -/
def markSeen (c : Watch ι) (i : ι) : Watch ι where
  version := c.version
  seen := Function.update c.seen i c.version
  seen_le := fun j => by
    rcases eq_or_ne j i with rfl | hne
    · rw [Function.update_self]
    · rw [Function.update_of_ne hne]
      exact c.seen_le j

/-- Looking takes nobody else's notification away. -/
theorem changed_markSeen_of_ne (c : Watch ι) {i j : ι} (h : j ≠ i) :
    (c.markSeen i).changed j = c.changed j := by
  simp [changed, markSeen, Function.update_of_ne h]

end Watch

end KDown
