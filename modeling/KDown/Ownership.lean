/-
KDown/Ownership.lean

Exclusive ownership of resources, and the transfers that keep it.

`ExactlyOwned holds dom` says that every resource of `dom` is held by exactly
one owner and that nothing outside `dom` is held.  A transfer relabels owners:
the new holder of a resource is a function of its old holder and the resource.
Since the old holder is unique, so is the new one, and no resource appears or
disappears; `ExactlyOwned.transfer` is the only fact an operation has to use.

The two readings at the end turn exact ownership into the usual statement
about a partition: distinct owners hold disjoint sets, and the union over all
owners is the domain.
-/
import Mathlib.Data.Set.Lattice
import Mathlib.Order.CompletePartialOrder

namespace KDown

variable {α ο : Type*}

/-- Every resource of `dom` has exactly one owner, and only those are owned. -/
structure ExactlyOwned (holds : ο → α → Prop) (dom : Set α) : Prop where
  covered : ∀ a ∈ dom, ∃ o, holds o a
  within : ∀ o a, holds o a → a ∈ dom
  unique : ∀ o o' a, holds o a → holds o' a → o = o'

/-- `holds'` arises from `holds` by handing the resource `a` of the owner `o`
to the owner `f o a`. -/
def Transfers (f : ο → α → ο) (holds holds' : ο → α → Prop) : Prop :=
  ∀ o' a, holds' o' a ↔ ∃ o, holds o a ∧ f o a = o'

/-- **Exact ownership is kept by every transfer.** -/
theorem ExactlyOwned.transfer {f : ο → α → ο} {holds holds' : ο → α → Prop}
    {dom : Set α} (h : ExactlyOwned holds dom) (ht : Transfers f holds holds') :
    ExactlyOwned holds' dom where
  covered := by
    intro a ha
    obtain ⟨o, ho⟩ := h.covered a ha
    exact ⟨f o a, (ht _ _).mpr ⟨o, ho, rfl⟩⟩
  within := by
    intro o' a ho'
    obtain ⟨o, ho, -⟩ := (ht _ _).mp ho'
    exact h.within o a ho
  unique := by
    intro o₁ o₂ a h₁ h₂
    obtain ⟨p₁, hp₁, rfl⟩ := (ht _ _).mp h₁
    obtain ⟨p₂, hp₂, rfl⟩ := (ht _ _).mp h₂
    rw [h.unique p₁ p₂ a hp₁ hp₂]

/-- The same holders are a transfer that moves nothing. -/
theorem ExactlyOwned.congr {holds holds' : ο → α → Prop} {dom : Set α}
    (h : ExactlyOwned holds dom) (heq : ∀ o a, holds' o a ↔ holds o a) :
    ExactlyOwned holds' dom :=
  h.transfer (f := fun o _ => o) fun o' a => by simp [heq]

/-- Distinct owners hold disjoint sets. -/
theorem ExactlyOwned.disjoint {holds : ο → α → Prop} {dom : Set α}
    (h : ExactlyOwned holds dom) (o o' : ο) (hne : o ≠ o') :
    Disjoint {a | holds o a} {a | holds o' a} :=
  Set.disjoint_left.mpr fun a ha ha' => hne (h.unique o o' a ha ha')

/-- The owners together hold the domain. -/
theorem ExactlyOwned.iUnion {holds : ο → α → Prop} {dom : Set α}
    (h : ExactlyOwned holds dom) : ⋃ o, {a | holds o a} = dom := by
  ext a
  simp only [Set.mem_iUnion, Set.mem_ofPred_eq]
  exact ⟨fun ⟨o, ho⟩ => h.within o a ho, h.covered a⟩

end KDown
