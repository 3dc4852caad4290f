/-
KDown/Tally.lean

Sums over the parties of a system: what a total becomes when one party
changes.  The parties are numbered, or they are the entries of a list.

* `tally_update` for a family that changes at one index;
* `listTally_set` for a list that changes at one place, `listTally_filter`
  for one that loses entries.

The first two are stated without subtraction.
-/
import Mathlib.Algebra.BigOperators.Group.Finset.Basic
import Mathlib.Algebra.Order.BigOperators.Group.Finset

namespace KDown

variable {α : Type*}

/-- What the first `n` parties come to. -/
def tally (n : ℕ) (f : α → ℕ) (g : ℕ → α) : ℕ := ∑ k ∈ Finset.range n, f (g k)

/-- **One value changes**, and the sum by the difference. -/
theorem tally_update {n w : ℕ} (hw : w < n) (f : α → ℕ) (g : ℕ → α) (x : α) :
    tally n f (Function.update g w x) + f (g w) = tally n f g + f x := by
  have hmem : w ∈ Finset.range n := Finset.mem_range.mpr hw
  have hnew := Finset.add_sum_erase (Finset.range n) (fun k => f (Function.update g w x k)) hmem
  have hold := Finset.add_sum_erase (Finset.range n) (fun k => f (g k)) hmem
  have hrest : ∑ k ∈ (Finset.range n).erase w, f (Function.update g w x k)
      = ∑ k ∈ (Finset.range n).erase w, f (g k) :=
    Finset.sum_congr rfl fun k hk => by rw [Function.update_of_ne (Finset.ne_of_mem_erase hk)]
  rw [hrest, Function.update_self] at hnew
  rw [tally, tally, ← hnew, ← hold]
  omega

theorem tally_succ (n : ℕ) (f : α → ℕ) (g : ℕ → α) (x : α) :
    tally (n + 1) f (Function.update g n x) = tally n f g + f x := by
  rw [tally, Finset.sum_range_succ, Function.update_self]
  congr 1
  refine Finset.sum_congr rfl fun k hk => ?_
  rw [Function.update_of_ne (Nat.ne_of_lt (Finset.mem_range.mp hk))]

theorem tally_congr {n : ℕ} {f : α → ℕ} {g g' : ℕ → α} (h : ∀ k < n, f (g' k) = f (g k)) :
    tally n f g' = tally n f g :=
  Finset.sum_congr rfl fun k hk => h k (Finset.mem_range.mp hk)

theorem exists_of_tally_pos {n : ℕ} {f : α → ℕ} {g : ℕ → α} (h : 0 < tally n f g) :
    ∃ k < n, 0 < f (g k) := by
  by_contra hno
  have hzero : tally n f g = 0 :=
    Finset.sum_eq_zero fun k hk =>
      Nat.eq_zero_of_not_pos fun hpos => hno ⟨k, Finset.mem_range.mp hk, hpos⟩
  omega

theorem le_tally {n k : ℕ} (hk : k < n) (f : α → ℕ) (g : ℕ → α) : f (g k) ≤ tally n f g :=
  Finset.single_le_sum (f := fun k => f (g k)) (fun _ _ => Nat.zero_le _) (Finset.mem_range.mpr hk)

theorem tally_le {n : ℕ} {f f' : α → ℕ} {g : ℕ → α} (h : ∀ k < n, f (g k) ≤ f' (g k)) :
    tally n f g ≤ tally n f' g :=
  Finset.sum_le_sum fun k hk => h k (Finset.mem_range.mp hk)

theorem tally_le_add {n : ℕ} {f f₁ f₂ : α → ℕ} (g : ℕ → α) (h : ∀ a, f a ≤ f₁ a + f₂ a) :
    tally n f g ≤ tally n f₁ g + tally n f₂ g := by
  rw [tally, tally, tally, ← Finset.sum_add_distrib]
  exact Finset.sum_le_sum fun k _ => h (g k)

/-- Only one party counts. -/
theorem tally_single {n i : ℕ} (hi : i < n) {f : α → ℕ} {g : ℕ → α}
    (h : ∀ k < n, k ≠ i → f (g k) = 0) : tally n f g = f (g i) :=
  Finset.sum_eq_single i (fun k hk hne => h k (Finset.mem_range.mp hk) hne)
    fun hno => absurd (Finset.mem_range.mpr hi) hno

/-- What the entries of a list come to. -/
def listTally (f : α → ℕ) (l : List α) : ℕ := l.foldr (fun a n => f a + n) 0

@[simp] theorem listTally_nil (f : α → ℕ) : listTally f [] = 0 := rfl

@[simp] theorem listTally_cons (f : α → ℕ) (a : α) (l : List α) :
    listTally f (a :: l) = f a + listTally f l := rfl

@[simp] theorem listTally_append (f : α → ℕ) (l l' : List α) :
    listTally f (l ++ l') = listTally f l + listTally f l' := by
  induction l with
  | nil => rw [List.nil_append, listTally_nil, Nat.zero_add]
  | cons a l ih => rw [List.cons_append, listTally_cons, listTally_cons, ih, Nat.add_assoc]

/-- **One entry is replaced**, and the sum changes by the difference. -/
theorem listTally_set {l : List α} {i : ℕ} {a : α} (h : l[i]? = some a) (f : α → ℕ) (x : α) :
    listTally f (l.set i x) + f a = listTally f l + f x := by
  induction l generalizing i with
  | nil => simp at h
  | cons b l ih =>
    rcases i with - | i
    · obtain rfl : b = a := by simpa using h
      simp only [List.set_cons_zero, listTally_cons]
      omega
    · have hrest := ih (i := i) (by simpa using h)
      simp only [List.set_cons_succ, listTally_cons]
      omega

theorem listTally_eq_zero {f : α → ℕ} {l : List α} (h : ∀ a ∈ l, f a = 0) : listTally f l = 0 := by
  induction l with
  | nil => rfl
  | cons b l ih =>
    rw [listTally_cons, h b List.mem_cons_self, ih fun a ha => h a (List.mem_cons_of_mem _ ha)]

/-- **Entries that do not count may go.** -/
theorem listTally_filter {f : α → ℕ} {p : α → Bool} {l : List α}
    (h : ∀ a ∈ l, p a = false → f a = 0) : listTally f (l.filter p) = listTally f l := by
  induction l with
  | nil => rfl
  | cons b l ih =>
    have hrest := ih fun a ha => h a (List.mem_cons_of_mem _ ha)
    rcases hb : p b with - | -
    · rw [List.filter_cons_of_neg (by rw [hb]; exact Bool.false_ne_true), listTally_cons,
        h b List.mem_cons_self hb, hrest, Nat.zero_add]
    · rw [List.filter_cons_of_pos hb, listTally_cons, listTally_cons, hrest]

/-- Counting is a tally. -/
theorem listTally_ite (p : α → Bool) (l : List α) :
    listTally (fun a => if p a then 1 else 0) l = l.countP p := by
  induction l with
  | nil => rfl
  | cons b l ih => rw [listTally_cons, ih, List.countP_cons, Nat.add_comm]

end KDown
