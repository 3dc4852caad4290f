/-
KDown/OrderStatistics.lean

Order statistics by counting.

The element of rank `t` in a list is the one with fewer than `t` elements below
it and at least `t` up to it (`Ranked`).  It is at place `t - 1` of the sorted
list (`ranked_insertionSort`), and a monotone map takes it to the element of the
same rank (`Ranked.map`).  The quantile `p` is the element of rank `⌈p n⌉`.
-/
import Mathlib.Algebra.Order.Floor.Semiring
import Mathlib.Data.List.Sort
import Mathlib.Data.Rat.Floor
import Mathlib.Tactic.Linarith

namespace KDown

variable {α β : Type*} [LinearOrder α] [LinearOrder β]

/-- The element has rank `t`, counted from one. -/
structure Ranked (t : ℕ) (l : List α) (q : α) : Prop where
  below : l.countP (· < q) < t
  reaches : t ≤ l.countP (· ≤ q)

/-- **A monotone map keeps ranks.** -/
theorem Ranked.map {t : ℕ} {l : List α} {q : α} (h : Ranked t l q) {f : α → β} (hf : Monotone f) :
    Ranked t (l.map f) (f q) := by
  constructor
  · refine lt_of_le_of_lt ?_ h.below
    rw [List.countP_map]
    apply List.countP_mono_left
    intro x _ hx
    simp only [Function.comp_apply, decide_eq_true_eq] at hx ⊢
    exact hf.reflect_lt hx
  · refine le_trans h.reaches ?_
    rw [List.countP_map]
    apply List.countP_mono_left
    intro x _ hx
    simp only [Function.comp_apply, decide_eq_true_eq] at hx ⊢
    exact hf hx

theorem Ranked.perm {t : ℕ} {l l' : List α} {q : α} (h : Ranked t l q) (hl : l.Perm l') :
    Ranked t l' q := ⟨hl.countP_eq _ ▸ h.below, hl.countP_eq _ ▸ h.reaches⟩

/-- What stands between smaller and greater elements has its place as rank. -/
theorem ranked_of_split {a b : List α} {q : α} (ha : ∀ x ∈ a, x ≤ q) (hb : ∀ x ∈ b, q ≤ x) :
    Ranked (a.length + 1) (a ++ q :: b) q := by
  constructor
  · have hzero : b.countP (· < q) = 0 := by
      rw [List.countP_eq_zero]
      intro x hx
      rw [decide_eq_true_eq]
      exact not_lt.mpr (hb x hx)
    rw [List.countP_append, List.countP_cons_of_neg (by simp), hzero, Nat.add_zero]
    exact Nat.lt_succ_of_le List.countP_le_length
  · have hall : a.countP (· ≤ q) = a.length := by
      rw [List.countP_eq_length]
      intro x hx
      rw [decide_eq_true_eq]
      exact ha x hx
    rw [List.countP_append, List.countP_cons_of_pos (by simp), hall]
    exact Nat.add_le_add_left (Nat.le_add_left 1 _) _

/-- **In a sorted list the rank is the place.** -/
theorem ranked_insertionSort {l : List α} {k : ℕ} {q : α}
    (hk : (l.insertionSort (· ≤ ·))[k]? = some q) : Ranked (k + 1) l q := by
  have hperm := List.perm_insertionSort (· ≤ ·) l
  have hsorted := List.pairwise_insertionSort (· ≤ ·) l
  generalize l.insertionSort (· ≤ ·) = s at hk hperm hsorted
  obtain ⟨hlt, rfl⟩ := List.getElem?_eq_some_iff.mp hk
  have hsplit : s = s.take k ++ s[k] :: s.drop (k + 1) := by
    rw [List.getElem_cons_drop, List.take_append_drop]
  rw [hsplit, List.pairwise_append, List.pairwise_cons] at hsorted
  obtain ⟨-, ⟨hafter, -⟩, hbefore⟩ := hsorted
  have hranked := ranked_of_split (fun x hx => hbefore x hx _ List.mem_cons_self) hafter
  rw [← hsplit, List.length_take_of_le hlt.le] at hranked
  exact hranked.perm hperm

/-! ### Quantiles -/

/-- The quantile `p`: the least element with at least `p n` of the `n` elements
up to it. -/
def quantile (p : ℚ) (l : List α) : Option α :=
  (l.insertionSort (· ≤ ·))[⌈p * l.length⌉₊ - 1]?

theorem quantile_ranked {p : ℚ} (hp : 0 < p) {l : List α} {q : α} (h : quantile p l = some q) :
    Ranked ⌈p * l.length⌉₊ l q := by
  have hne : 0 < l.length := by
    obtain ⟨hlt, -⟩ := List.getElem?_eq_some_iff.mp h
    rw [List.length_insertionSort] at hlt
    exact Nat.zero_lt_of_lt hlt
  have hpos : 0 < ⌈p * l.length⌉₊ := Nat.ceil_pos.mpr (mul_pos hp (Nat.cast_pos.mpr hne))
  have hranked := ranked_insertionSort h
  rwa [Nat.sub_add_cancel hpos] at hranked

/-- Only the empty list has no quantile. -/
theorem quantile_eq_none {p : ℚ} (hp : p ≤ 1) {l : List α} : quantile p l = none ↔ l = [] := by
  rw [quantile, List.getElem?_eq_none_iff, List.length_insertionSort]
  constructor
  · intro h
    by_contra hne
    have hlength : 0 < l.length := List.length_pos_iff.mpr hne
    have hceil : ⌈p * l.length⌉₊ ≤ l.length := by
      rw [Nat.ceil_le]
      exact mul_le_of_le_one_left (Nat.cast_nonneg _) hp
    omega
  · rintro rfl
    exact Nat.zero_le _

end KDown
