/-
KDown/FairSemaphore.lean

A counting semaphore that serves its waiters first come, first served.

A waiter enters the queue; the first one takes a permit when one is there; a
waiter that gives up leaves the queue.  A released permit may be handed over
to the first waiter at once: that is a release followed by a grant.
-/
import Mathlib.Data.List.Basic
import Mathlib.Data.List.Nodup
import Mathlib.Tactic.Common

namespace KDown

/-- Permits, and who waits for one. -/
structure FairSemaphore (ι : Type*) where
  available : ℕ
  /-- The waiters, first come first. -/
  queue : List ι
  deriving DecidableEq, Repr

namespace FairSemaphore

variable {ι : Type*} [DecidableEq ι]

/-- All permits are free. -/
def new (permits : ℕ) : FairSemaphore ι := ⟨permits, []⟩

/-- The caller waits behind all others. -/
def enqueue (s : FairSemaphore ι) (i : ι) : FairSemaphore ι := { s with queue := s.queue ++ [i] }

/-- The first waiter takes a permit. -/
def grant (s : FairSemaphore ι) (i : ι) : Option (FairSemaphore ι) :=
  match s.queue with
  | [] => none
  | j :: rest => if j = i ∧ 0 < s.available then some ⟨s.available - 1, rest⟩ else none

/-- A waiter gives up. -/
def leave (s : FairSemaphore ι) (i : ι) : FairSemaphore ι :=
  { s with queue := s.queue.filter fun j => j ≠ i }

/-- A permit comes back. -/
def release (s : FairSemaphore ι) : FairSemaphore ι := { s with available := s.available + 1 }

/-- A released permit goes to the first waiter, if there is one. -/
def handOver (s : FairSemaphore ι) : FairSemaphore ι × Option ι :=
  match s.queue with
  | [] => (s.release, none)
  | i :: rest => ({ s with queue := rest }, some i)

theorem grant_eq_some {s s' : FairSemaphore ι} {i : ι} (h : s.grant i = some s') :
    ∃ rest, s.queue = i :: rest ∧ 0 < s.available ∧ s' = ⟨s.available - 1, rest⟩ := by
  rw [grant] at h
  split at h
  · cases h
  · next j rest hq =>
    split_ifs at h with hc
    obtain ⟨rfl, hpos⟩ := hc
    exact ⟨rest, hq, hpos, (Option.some.inj h).symm⟩

/-- With a permit and a waiter there is somebody to serve. -/
theorem exists_grant {s : FairSemaphore ι} (hpos : 0 < s.available) (hq : s.queue ≠ []) :
    ∃ i rest, s.queue = i :: rest ∧ s.grant i = some ⟨s.available - 1, rest⟩ := by
  obtain ⟨i, rest, hrest⟩ := List.exists_cons_of_ne_nil hq
  refine ⟨i, rest, hrest, ?_⟩
  rw [grant, hrest]
  exact if_pos ⟨rfl, hpos⟩

/-- The waiters are those that satisfy `p`, each of them once. -/
structure Waiting (s : FairSemaphore ι) (p : ι → Prop) : Prop where
  nodup : s.queue.Nodup
  mem : ∀ i, i ∈ s.queue ↔ p i

namespace Waiting

variable {s s' : FairSemaphore ι} {p p' : ι → Prop} {i : ι}

omit [DecidableEq ι] in
/-- Nobody who waits changes. -/
theorem congr (h : s.Waiting p) (hq : s'.queue = s.queue) (hp : ∀ k, p' k ↔ p k) : s'.Waiting p' where
  nodup := hq ▸ h.nodup
  mem := fun k => by rw [hq, h.mem, hp]

theorem enqueue (h : s.Waiting p) (hi : ¬ p i) (hself : p' i) (hp : ∀ k, k ≠ i → (p' k ↔ p k)) :
    (s.enqueue i).Waiting p' where
  nodup := by
    refine List.nodup_append.mpr ⟨h.nodup, List.nodup_singleton i, fun a ha b hb hab => hi ?_⟩
    rw [← h.mem, ← List.mem_singleton.mp hb, ← hab]
    exact ha
  mem := fun k => by
    show k ∈ s.queue ++ [i] ↔ p' k
    rw [List.mem_append, List.mem_singleton, h.mem]
    by_cases hk : k = i
    · subst hk
      exact ⟨fun _ => hself, fun _ => .inr rfl⟩
    · rw [hp k hk]
      exact ⟨fun hor => hor.elim id fun heq => absurd heq hk, .inl⟩

theorem grant (h : s.Waiting p) (hg : s.grant i = some s') (hself : ¬ p' i)
    (hp : ∀ k, k ≠ i → (p' k ↔ p k)) : s'.Waiting p' := by
  obtain ⟨rest, hq, -, rfl⟩ := grant_eq_some hg
  have hnodup := h.nodup
  rw [hq, List.nodup_cons] at hnodup
  refine ⟨hnodup.2, fun k => ?_⟩
  by_cases hk : k = i
  · subst hk
    exact ⟨fun hin => absurd hin hnodup.1, fun hno => absurd hno hself⟩
  · rw [hp k hk, ← h.mem k, hq, List.mem_cons]
    exact ⟨.inr, fun hor => hor.elim (fun heq => absurd heq hk) id⟩

theorem leave (h : s.Waiting p) (hself : ¬ p' i) (hp : ∀ k, k ≠ i → (p' k ↔ p k)) :
    (s.leave i).Waiting p' where
  nodup := h.nodup.filter _
  mem := fun k => by
    show k ∈ s.queue.filter (fun j => j ≠ i) ↔ p' k
    rw [List.mem_filter, h.mem]
    by_cases hk : k = i
    · subst hk
      exact ⟨fun hand => absurd rfl (of_decide_eq_true hand.2), fun hno => absurd hno hself⟩
    · rw [hp k hk]
      exact ⟨And.left, fun hpk => ⟨hpk, decide_eq_true hk⟩⟩

end Waiting

end FairSemaphore

end KDown
