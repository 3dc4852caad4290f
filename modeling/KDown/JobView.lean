/-
KDown/JobView.lean

The view of a job that is published to clients (app domain.rs, job_view in
supervisor/mod.rs).

A view is a durable record joined with an attempt, the sequence number of the
sample and the engine's snapshot.  What is only displayed is left out.
`lastWith` is the last entry of a list that has a property; the lists here are
histories, and the entry is what a client saw last.
-/
import KDown.Registry

namespace KDown

/-- A display-safe view of a job; `δ` is the engine's snapshot. -/
structure JobView (δ : Type*) where
  id : ℕ
  status : DurableJobStatus
  desiredState : DesiredState
  controlVersion : ℕ
  attemptId : Option ℕ
  sampleSeq : ℕ
  snapshot : Option δ
  deriving DecidableEq, Repr

/-- The view of a record. -/
def jobView {δ : Type*} (id : ℕ) (record : JobRecord) (attemptId : Option ℕ) (sampleSeq : ℕ)
    (snapshot : Option δ) : JobView δ :=
  ⟨id, record.status, record.desiredState, record.controlVersion, attemptId, sampleSeq, snapshot⟩

/-! ### The last entry with a property -/

variable {α β : Type*} {p : α → Bool}

/-- The last entry that has the property. -/
def lastWith (p : α → Bool) (l : List α) : Option α := (l.filter p).getLast?

theorem lastWith_append (l : List α) (a : α) :
    lastWith p (l ++ [a]) = if p a then some a else lastWith p l := by
  unfold lastWith
  rw [List.filter_append]
  by_cases ha : p a = true
  · rw [if_pos ha, List.filter_cons_of_pos ha]
    exact List.getLast?_concat ..
  · rw [if_neg ha, List.filter_cons_of_neg ha, List.filter_nil, List.append_nil]

theorem lastWith_map (p : β → Bool) (f : α → β) (l : List α) :
    lastWith p (l.map f) = (lastWith (fun a => p (f a)) l).map f := by
  unfold lastWith
  rw [List.filter_map, List.getLast?_map]
  rfl

/-- An entry after which none has the property. -/
theorem lastWith_eq_some {a : α} {l l' : List α} (ha : p a = true) (h : ∀ b ∈ l', p b = false) :
    lastWith p (l ++ a :: l') = some a := by
  have hnil : l'.filter p = [] := by
    refine List.filter_eq_nil_iff.mpr fun b hb => ?_
    rw [h b hb]
    exact Bool.false_ne_true
  unfold lastWith
  rw [List.filter_append, List.filter_cons_of_pos ha, hnil]
  exact List.getLast?_concat ..

end KDown
