/-
KDown/Traced.lean

Programs that record what they do.

A program gets what has been recorded so far and goes on from there; it returns
a value or fails, and what it has recorded stays in either case.  `Ensures I P m Q`
is its triple: from a record with `I` and `P` the program keeps `I`, also when it
fails, and has `Q` when it returns.  The rules follow the constructors: `pure`,
`fail`, `bind` and `record`.

`Guarded G` is the `I` of guard properties: whatever is in the record was allowed
by what was recorded before it.
-/
import Mathlib.Tactic.Common

namespace KDown

variable {τ ε ε' α β : Type}

/-- A program: from what has been recorded to an answer and the longer record. -/
def Traced (τ ε α : Type) : Type := List τ → Except ε α × List τ

namespace Traced

/-- Sequencing; a failure ends the program. -/
def bind (m : Traced τ ε α) (f : α → Traced τ ε β) : Traced τ ε β := fun t =>
  match m t with
  | (.ok a, t') => f a t'
  | (.error e, t') => (.error e, t')

instance : Monad (Traced τ ε) where
  pure a := fun t => (.ok a, t)
  bind := bind

/-- Fail, with nothing recorded. -/
def fail (e : ε) : Traced τ ε α := fun t => (.error e, t)

/-- Record one event. -/
def record (x : τ) : Traced τ ε Unit := fun t => (.ok (), t ++ [x])

/-- How much has been recorded so far. -/
def position : Traced τ ε ℕ := fun t => (.ok t.length, t)

/-- An answer that records nothing. -/
def lift (r : Except ε α) : Traced τ ε α := fun t => (r, t)

/-- The same program with its error translated. -/
def mapErr (g : ε → ε') (m : Traced τ ε α) : Traced τ ε' α := fun t =>
  match m t with
  | (.ok a, t') => (.ok a, t')
  | (.error e, t') => (.error (g e), t')

@[simp] theorem mapErr_snd (g : ε → ε') (m : Traced τ ε α) (t : List τ) :
    (mapErr g m t).2 = (m t).2 := by
  unfold mapErr
  rcases m t with ⟨e | a, t'⟩ <;> rfl

/-- From a record with `I` and `P` the program keeps `I` and returns with
`Q`. -/
def Ensures (I P : List τ → Prop) (m : Traced τ ε α) (Q : α → List τ → Prop) : Prop :=
  ∀ t, I t → P t → I (m t).2 ∧ ∀ a, (m t).1 = .ok a → Q a (m t).2

variable {I P P' : List τ → Prop} {Q Q' : α → List τ → Prop} {R : β → List τ → Prop}
  {m : Traced τ ε α} {f : α → Traced τ ε β}

theorem ensures_pure {a : α} (h : ∀ t, I t → P t → Q a t) : Ensures I P (pure a : Traced τ ε α) Q := by
  intro t hI hP
  refine ⟨hI, fun b hb => ?_⟩
  cases hb
  exact h t hI hP

theorem ensures_fail {e : ε} : Ensures I P (fail e) Q := by
  intro t hI _
  exact ⟨hI, fun a ha => by cases ha⟩

theorem ensures_lift {r : Except ε α} (h : ∀ a, r = .ok a → ∀ t, I t → P t → Q a t) :
    Ensures I P (lift r) Q := by
  intro t hI hP
  exact ⟨hI, fun a ha => h a ha t hI hP⟩

theorem ensures_position {Q : ℕ → List τ → Prop} (h : ∀ n t, I t → P t → Q n t) :
    Ensures I P (position : Traced τ ε ℕ) Q := by
  intro t hI hP
  exact ⟨hI, fun a _ => h a t hI hP⟩

theorem ensures_record {x : τ} {Q : Unit → List τ → Prop}
    (h : ∀ t, I t → P t → I (t ++ [x]) ∧ Q () (t ++ [x])) :
    Ensures I P (record x : Traced τ ε Unit) Q := by
  intro t hI hP
  exact ⟨(h t hI hP).1, fun _ _ => (h t hI hP).2⟩

/-- **The rule of sequence**: what the first part ensures is assumed by the
second. -/
theorem Ensures.bind (hm : Ensures I P m Q) (hf : ∀ a, Ensures I (Q a) (f a) R) :
    Ensures I P (m >>= f) R := by
  intro t hI hP
  obtain ⟨hkeeps, hreturns⟩ := hm t hI hP
  show I (Traced.bind m f t).2 ∧ ∀ b, (Traced.bind m f t).1 = .ok b → R b (Traced.bind m f t).2
  rw [Traced.bind]
  rcases hrun : m t with ⟨e | a, t'⟩
  · rw [hrun] at hkeeps
    exact ⟨hkeeps, fun b hb => by cases hb⟩
  · rw [hrun] at hkeeps hreturns
    exact hf a t' hkeeps (hreturns a rfl)

theorem Ensures.imp (hm : Ensures I P m Q) (hP : ∀ t, P' t → P t) (hQ : ∀ a t, Q a t → Q' a t) :
    Ensures I P' m Q' := by
  intro t hI hP'
  obtain ⟨hkeeps, hreturns⟩ := hm t hI (hP t hP')
  exact ⟨hkeeps, fun a ha => hQ a _ (hreturns a ha)⟩

/-- A program that records what `m` records keeps what `m` keeps. -/
theorem Ensures.of_records {m' : Traced τ ε' β} (hm : Ensures I P m Q)
    (h : ∀ t, (m' t).2 = (m t).2) : Ensures I P m' (fun _ _ => True) := by
  intro t hI hP
  rw [h t]
  exact ⟨(hm t hI hP).1, fun _ _ => trivial⟩

/-- What does not depend on the record is a hypothesis. -/
theorem Ensures.of_fact {p : Prop} (hm : p → Ensures I P m Q) : Ensures I (fun t => p ∧ P t) m Q := by
  intro t hI hP
  exact hm hP.1 t hI hP.2

end Traced

/-! ### Guards -/

/-- Each event of the record was allowed by what was recorded before it. -/
def Guarded (G : List τ → τ → Prop) (t : List τ) : Prop :=
  ∀ l₁ x l₂, t = l₁ ++ x :: l₂ → G l₁ x

variable {G : List τ → τ → Prop} {t : List τ} {x : τ}

theorem Guarded.nil : Guarded G [] := by
  intro l₁ x l₂ h
  exact absurd h (by simp)

theorem Guarded.snoc (ht : Guarded G t) (hx : G t x) : Guarded G (t ++ [x]) := by
  intro l₁ y l₂ h
  rcases List.eq_nil_or_concat l₂ with rfl | ⟨l, z, rfl⟩
  · obtain ⟨rfl, hxy⟩ := List.append_inj' h rfl
    cases hxy
    exact hx
  · have hsplit : t ++ [x] = (l₁ ++ y :: l) ++ [z] := by
      rw [h]
      simp
    exact ht l₁ y l (List.append_inj' hsplit rfl).1

theorem Guarded.of_mem (h : Guarded G t) (hx : x ∈ t) : ∃ l₁ l₂, t = l₁ ++ x :: l₂ ∧ G l₁ x := by
  obtain ⟨l₁, l₂, rfl⟩ := List.append_of_mem hx
  exact ⟨l₁, l₂, rfl, h l₁ x l₂ rfl⟩

end KDown
