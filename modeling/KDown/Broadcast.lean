/-
KDown/Broadcast.lean

A bounded broadcast channel with many receivers.

The channel keeps the last `capacity` values; a receiver is a position in the
sequence of all values sent.  A receiver that fell behind what is kept learns
so once, and goes on with the oldest value kept.  Which positions a receiver
returned and which it skipped is history: `Receiver.Sound` says that the two
together are everything between its first position and its current one, that
values are returned in the order they were sent, and that nothing is skipped
which was still kept.
-/
import Mathlib.Algebra.Order.Ring.Nat
import Mathlib.Data.List.Pairwise
import Mathlib.Tactic.Common

namespace KDown

namespace Broadcast

/-- What an attempt to receive finds. -/
inductive Received (α : Type*)
  | value (a : α)
  | lagged
  | empty
  deriving DecidableEq, Repr

/-- A receiver of the channel, with the positions it has taken and those it
skipped. -/
structure Receiver where
  /-- The position of the next value. -/
  next : ℕ
  /-- Where the receiver subscribed. -/
  first : ℕ
  taken : List ℕ
  skipped : List ℕ
  deriving DecidableEq, Repr

variable {α : Type*} (capacity : ℕ)

/-- The oldest position that is kept. -/
def oldest (sent : List α) : ℕ := sent.length - capacity

/-- A new receiver sees what is sent from now on. -/
def subscribe (sent : List α) : Receiver := ⟨sent.length, sent.length, [], []⟩

namespace Receiver

/-- Receive without waiting. -/
def tryRecv (r : Receiver) (sent : List α) : Received α × Receiver :=
  if r.next < oldest capacity sent then
    (.lagged, { r with
      next := oldest capacity sent
      skipped := r.skipped ++ List.range' r.next (oldest capacity sent - r.next) })
  else
    match sent[r.next]? with
    | some a => (.value a, { r with next := r.next + 1, taken := r.taken ++ [r.next] })
    | none => (.empty, r)

/-- The receiver has nothing to receive. -/
def drained (r : Receiver) (sent : List α) : Prop := r.next = sent.length

/-- What was sent and not yet received or skipped. -/
def pending (r : Receiver) (sent : List α) : ℕ := sent.length - r.next

/-- What the history of a receiver says. -/
structure Sound (r : Receiver) (sent : List α) : Prop where
  first_le : r.first ≤ r.next
  next_le : r.next ≤ sent.length
  /-- Values are returned in the order in which they were sent. -/
  ordered : r.taken.Pairwise (· < ·)
  taken_iff : ∀ p, p ∈ r.taken ∨ p ∈ r.skipped ↔ r.first ≤ p ∧ p < r.next
  /-- What is skipped was not kept any more. -/
  skipped_lt : ∀ p ∈ r.skipped, p + capacity < sent.length

variable {capacity} {r : Receiver} {sent : List α}

/-- What an attempt to receive does. -/
theorem tryRecv_cases (capacity : ℕ) (r : Receiver) (sent : List α) :
    (r.next < oldest capacity sent ∧ r.tryRecv capacity sent = (.lagged, { r with
      next := oldest capacity sent
      skipped := r.skipped ++ List.range' r.next (oldest capacity sent - r.next) })) ∨
    (∃ a, oldest capacity sent ≤ r.next ∧ sent[r.next]? = some a ∧
      r.tryRecv capacity sent =
        (.value a, { r with next := r.next + 1, taken := r.taken ++ [r.next] })) ∨
    (sent.length ≤ r.next ∧ r.tryRecv capacity sent = (.empty, r)) := by
  unfold tryRecv
  by_cases hlag : r.next < oldest capacity sent
  · rw [if_pos hlag]
    exact .inl ⟨hlag, rfl⟩
  rw [if_neg hlag]
  rcases hat : sent[r.next]? with _ | a
  · exact .inr (.inr ⟨List.getElem?_eq_none_iff.mp hat, rfl⟩)
  · exact .inr (.inl ⟨a, not_lt.mp hlag, rfl, rfl⟩)

theorem sound_subscribe (sent : List α) : (subscribe sent).Sound capacity sent where
  first_le := le_rfl
  next_le := le_rfl
  ordered := List.Pairwise.nil
  taken_iff p := by
    simp only [subscribe, List.not_mem_nil, or_self, false_iff, not_and, not_lt]
    exact id
  skipped_lt p hp := nomatch hp

/-- A value is sent. -/
theorem Sound.send (h : r.Sound capacity sent) (a : α) : r.Sound capacity (sent ++ [a]) where
  first_le := h.first_le
  next_le := by
    rw [List.length_append]
    exact h.next_le.trans (Nat.le_add_right _ _)
  ordered := h.ordered
  taken_iff := h.taken_iff
  skipped_lt p hp := by
    rw [List.length_append]
    exact (h.skipped_lt p hp).trans_le (Nat.le_add_right _ _)

/-- The positions returned so far lie below the next one. -/
theorem Sound.taken_lt (h : r.Sound capacity sent) {p : ℕ} (hp : p ∈ r.taken) : p < r.next :=
  ((h.taken_iff p).mp (.inl hp)).2

/-- A receive finds the next value, or learns how many it has missed. -/
theorem Sound.tryRecv (h : r.Sound capacity sent) :
    (r.tryRecv capacity sent).2.Sound capacity sent := by
  rcases tryRecv_cases capacity r sent with
    ⟨hlag, hrecv⟩ | ⟨a, -, hat, hrecv⟩ | ⟨-, hrecv⟩ <;> rw [hrecv]
  · -- what lies between the two positions is skipped
    have hle : oldest capacity sent ≤ sent.length := Nat.sub_le _ _
    have hnew : ∀ p, p ∈ List.range' r.next (oldest capacity sent - r.next) ↔
        r.next ≤ p ∧ p < oldest capacity sent := by
      intro p
      rw [List.mem_range'_1]
      omega
    refine ⟨h.first_le.trans hlag.le, hle, h.ordered, fun p => ?_, fun p hp => ?_⟩
    · show p ∈ r.taken ∨ p ∈ r.skipped ++ List.range' r.next (oldest capacity sent - r.next) ↔
        r.first ≤ p ∧ p < oldest capacity sent
      have hold := h.taken_iff p
      have hfirst := h.first_le
      rw [List.mem_append, ← or_assoc, hold, hnew]
      omega
    · rcases List.mem_append.mp hp with hp | hp
      · exact h.skipped_lt p hp
      · have hlt := ((hnew p).mp hp).2
        unfold oldest at hlt
        omega
  · -- the value joins what was returned
    have hlt := (List.getElem?_eq_some_iff.mp hat).1
    refine ⟨h.first_le.trans (Nat.le_succ _), hlt, ?_, fun p => ?_, h.skipped_lt⟩
    · refine List.pairwise_append.mpr ⟨h.ordered, List.pairwise_singleton _ _, fun p hp q hq => ?_⟩
      rw [List.mem_singleton.mp hq]
      exact h.taken_lt hp
    · show p ∈ r.taken ++ [r.next] ∨ p ∈ r.skipped ↔ r.first ≤ p ∧ p < r.next + 1
      have hold := h.taken_iff p
      have hfirst := h.first_le
      rw [List.mem_append, List.mem_singleton, or_right_comm, hold]
      omega
  · exact h

/-- Only an attempt that finds nothing leaves the position where it is. -/
theorem tryRecv_next (capacity : ℕ) (r : Receiver) (sent : List α) :
    r.next ≤ (r.tryRecv capacity sent).2.next := by
  rcases tryRecv_cases capacity r sent with
    ⟨hlag, hrecv⟩ | ⟨a, -, -, hrecv⟩ | ⟨-, hrecv⟩ <;> rw [hrecv]
  · exact hlag.le
  · exact Nat.le_succ _

end Receiver

end Broadcast

end KDown
