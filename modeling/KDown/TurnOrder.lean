/-
KDown/TurnOrder.lean

Round robin over a list with an index for a cursor.

The cursor `k` stands for the turn order `l.rotate k`.  A scan looks at the
places in that order and serves the first that waits; the cursor then moves past
it, and so the one served comes last.  Who waits ahead of somebody else is
served before them (`Ahead.served`), for as long as the order lasts.

A list that changes under its cursor need not keep the order: `Ahead.append` and
`Ahead.removed` say when it does.
-/
import Mathlib.Data.List.Rotate

namespace KDown

variable {α : Type*}

theorem rotate_append_of_length {l l' : List α} {k : ℕ} (h : l.length = k) :
    (l ++ l').rotate k = l' ++ l := by
  rw [← h, List.rotate_append_length_eq]

/-! ### Who comes first -/

section Ahead

variable [DecidableEq α] {l l₁ l₂ : List α} {x y z : α}

/-- `y` is in the list, and before `x` if that is. -/
def Ahead (l : List α) (y x : α) : Prop := l.idxOf y < l.idxOf x

instance : Decidable (Ahead l y x) := inferInstanceAs (Decidable (_ < _))

/-- The order, as a cut of the list. -/
theorem ahead_iff : Ahead l y x ↔ ∃ l₁ l₂, l = l₁ ++ y :: l₂ ∧ x ∉ l₁ ∧ x ≠ y := by
  constructor
  · intro h
    have hmem : y ∈ l := List.idxOf_lt_length_iff.mp (lt_of_lt_of_le h List.idxOf_le_length)
    obtain ⟨l₁, l₂, rfl, hy⟩ := List.eq_append_cons_of_mem hmem
    rw [Ahead, List.idxOf_append_of_notMem hy, List.idxOf_cons_self] at h
    refine ⟨l₁, l₂, rfl, fun hx => ?_, fun hxy => ?_⟩
    · rw [List.idxOf_append_of_mem hx] at h
      exact absurd (List.idxOf_lt_length_of_mem hx) (by omega)
    · rw [hxy, List.idxOf_append_of_notMem hy, List.idxOf_cons_self] at h
      exact lt_irrefl _ h
  · rintro ⟨l₁, l₂, rfl, hx, hne⟩
    rw [Ahead, List.idxOf_append_of_notMem hx, List.idxOf_cons_ne _ hne.symm]
    by_cases hy : y ∈ l₁
    · rw [List.idxOf_append_of_mem hy]
      exact lt_of_lt_of_le (List.idxOf_lt_length_of_mem hy) (Nat.le_add_right _ _)
    · rw [List.idxOf_append_of_notMem hy, List.idxOf_cons_self]
      omega

theorem Ahead.ne (h : Ahead l y x) : x ≠ y := by
  rintro rfl
  exact lt_irrefl _ h

theorem Ahead.mem (h : Ahead l y x) : y ∈ l :=
  List.idxOf_lt_length_iff.mp (lt_of_lt_of_le h List.idxOf_le_length)

theorem Ahead.asymm (h : Ahead l y x) : ¬ Ahead l x y := Nat.lt_asymm h

theorem ahead_of_notMem (hy : y ∈ l) (hx : x ∉ l) : Ahead l y x := by
  rw [Ahead, List.idxOf_eq_length hx]
  exact List.idxOf_lt_length_of_mem hy

/-- Whoever has just been served comes last. -/
theorem ahead_last (hy : y ∈ l) (hx : x ∉ l) : Ahead (l ++ [x]) y x := by
  rw [Ahead, List.idxOf_append_of_mem hy, List.idxOf_append_of_notMem hx]
  exact lt_of_lt_of_le (List.idxOf_lt_length_of_mem hy) (Nat.le_add_right _ _)

/-- **Somebody is served before the one who waits**: the order of the two stays. -/
theorem Ahead.served (h : Ahead (l₁ ++ z :: l₂) y x) (hy : y ∉ l₁) (hyz : y ≠ z) :
    Ahead (l₂ ++ (l₁ ++ [z])) y x ∧ x ≠ z := by
  obtain ⟨m₁, m₂, heq, hx, hne⟩ := ahead_iff.mp h
  rcases List.append_eq_append_iff.mp heq with ⟨m, hm₁, hm⟩ | ⟨m, hl₁, hm⟩
  · -- the one served stands in front of the one who waits
    rcases m with - | ⟨z', m⟩
    · exact absurd (List.cons.inj hm).1.symm hyz
    · obtain ⟨rfl, rfl⟩ := List.cons.inj hm
      subst hm₁
      rw [List.mem_append, List.mem_cons, not_or, not_or] at hx
      exact ⟨ahead_iff.mpr ⟨m, m₂ ++ (l₁ ++ [z]), List.append_assoc m (y :: m₂) _, hx.2.2, hne⟩,
        hx.2.1⟩
  · rcases m with - | ⟨y', m⟩
    · exact absurd (List.cons.inj hm).1 hyz
    · obtain ⟨rfl, -⟩ := List.cons.inj hm
      exact absurd (hl₁ ▸ List.mem_append_right m₁ List.mem_cons_self) hy

theorem Ahead.filter {p : α → Bool} (h : Ahead l y x) (hy : p y = true) :
    Ahead (l.filter p) y x := by
  obtain ⟨l₁, l₂, rfl, hx, hne⟩ := ahead_iff.mp h
  refine ahead_iff.mpr ⟨l₁.filter p, l₂.filter p, ?_, fun hmem => ?_, hne⟩
  · rw [List.filter_append, List.filter_cons_of_pos hy]
  · exact hx (List.mem_of_mem_filter hmem)

/-- Inserting another one changes no order. -/
theorem Ahead.insert (h : Ahead (l₁ ++ l₂) y x) (hne : x ≠ z) : Ahead (l₁ ++ z :: l₂) y x := by
  obtain ⟨m₁, m₂, heq, hx, hxy⟩ := ahead_iff.mp h
  rcases List.append_eq_append_iff.mp heq with ⟨m, rfl, rfl⟩ | ⟨m, rfl, hm⟩
  · refine ahead_iff.mpr ⟨l₁ ++ z :: m, m₂, by simp, fun hmem => ?_, hxy⟩
    rw [List.mem_append, List.mem_cons] at hmem
    rcases hmem with hmem | rfl | hmem
    · exact hx (List.mem_append_left _ hmem)
    · exact hne rfl
    · exact hx (List.mem_append_right _ hmem)
  · rcases m with - | ⟨y', m⟩
    · refine ahead_iff.mpr ⟨m₁ ++ [z], m₂, ?_, fun hmem => ?_, hxy⟩
      · rw [show l₂ = y :: m₂ from hm.symm, List.append_nil, List.append_assoc]
        rfl
      · rcases List.mem_append.mp hmem with hmem | hmem
        · exact hx hmem
        · exact hne (List.mem_singleton.mp hmem)
    · obtain ⟨rfl, rfl⟩ := List.cons.inj hm
      exact ahead_iff.mpr ⟨m₁, m ++ z :: l₂, by simp, hx, hxy⟩

/-! ### A list that changes under its cursor -/

/-- **A new last place, and a cursor within the list.** -/
theorem Ahead.append {k : ℕ} (hk : k ≤ l.length) (hne : x ≠ z) (h : Ahead (l.rotate k) y x) :
    Ahead ((l ++ [z]).rotate k) y x := by
  have hk' : k ≤ (l ++ [z]).length := by
    rw [List.length_append]
    exact Nat.le_add_right_of_le hk
  rw [List.rotate_eq_drop_append_take hk] at h
  rw [List.rotate_eq_drop_append_take hk', List.drop_append_of_le_length hk,
    List.take_append_of_le_length hk, List.append_assoc]
  exact h.insert hne

/-- **Places go, but none in front of the cursor.** -/
theorem Ahead.removed {k : ℕ} {p : α → Bool} (hk : k ≤ l.length) (hp : ∀ z ∈ l.take k, p z = true)
    (hy : p y = true) (h : Ahead (l.rotate k) y x) : Ahead ((l.filter p).rotate k) y x := by
  have htake : (l.take k).filter p = l.take k := List.filter_eq_self.mpr hp
  have hsplit : l.filter p = l.take k ++ (l.drop k).filter p := by
    conv_lhs => rw [← List.take_append_drop k l, List.filter_append, htake]
  have hrotate : (l.filter p).rotate k = (l.rotate k).filter p := by
    rw [hsplit, List.rotate_eq_drop_append_take hk, List.filter_append, htake]
    exact rotate_append_of_length (List.length_take_of_le hk)
  rw [hrotate]
  exact h.filter hy

end Ahead

/-! ### The scan -/

/-- The first place that waits, from the cursor round. -/
theorem scan_spec {l : List α} {p : α → Bool} {c index : ℕ}
    (h : (((List.range l.length).map fun offset =>
      (c % l.length + offset) % l.length).find? fun i => (l[i]?.map p).getD false) = some index) :
    ∃ l₁ x l₂, l.rotate c = l₁ ++ x :: l₂ ∧ (∀ y ∈ l₁, p y = false) ∧ l[index]? = some x ∧
      l.rotate ((index + 1) % l.length) = l₂ ++ (l₁ ++ [x]) := by
  rw [List.find?_map] at h
  obtain ⟨k, hk, rfl⟩ := Option.map_eq_some_iff.mp h
  obtain ⟨hpk, hlt, hbefore⟩ := List.find?_range_eq_some.mp hk
  rw [List.mem_range] at hlt
  have hplace : ∀ j, j < l.length → (l.rotate c)[j]? = l[(c % l.length + j) % l.length]? := by
    intro j hj
    rw [List.getElem?_rotate hj, Nat.mod_add_mod, Nat.add_comm]
  have hlen : k < (l.rotate c).length := by
    rw [List.length_rotate]
    exact hlt
  have hx : l[(c % l.length + k) % l.length]? = some (l.rotate c)[k] := by
    rw [← hplace k hlt, List.getElem?_eq_getElem hlen]
  have hsplit : l.rotate c = (l.rotate c).take k ++ (l.rotate c)[k] :: (l.rotate c).drop (k + 1) := by
    rw [← List.drop_eq_getElem_cons hlen, List.take_append_drop]
  refine ⟨(l.rotate c).take k, (l.rotate c)[k], (l.rotate c).drop (k + 1), hsplit, ?_, hx, ?_⟩
  · intro y hy
    obtain ⟨j, hj, rfl⟩ := List.mem_take_iff_getElem.mp hy
    have hjk : j < k := lt_of_lt_of_le hj (min_le_left _ _)
    have hno := hbefore j hjk
    have hget : l[(c % l.length + j) % l.length]? = some (l.rotate c)[j] := by
      rw [← hplace j (hjk.trans hlt), List.getElem?_eq_getElem (hjk.trans hlen)]
    simp only [Function.comp, hget] at hno
    simpa using hno
  · have hnext : l.rotate (((c % l.length + k) % l.length + 1) % l.length) =
        (l.rotate c).rotate (k + 1) := by
      rw [List.rotate_rotate, ← List.rotate_mod l (c + (k + 1)), Nat.mod_add_mod, Nat.add_assoc,
        Nat.mod_add_mod]
    have hserved : ((l.rotate c).take k ++ [(l.rotate c)[k]]).length = k + 1 := by
      rw [List.length_append, List.length_take_of_le hlen.le, List.length_singleton]
    rw [hnext]
    calc (l.rotate c).rotate (k + 1)
        = ((l.rotate c).take k ++ [(l.rotate c)[k]] ++ (l.rotate c).drop (k + 1)).rotate (k + 1) := by
          rw [← List.append_cons, ← hsplit]
      _ = (l.rotate c).drop (k + 1) ++ ((l.rotate c).take k ++ [(l.rotate c)[k]]) :=
          rotate_append_of_length hserved

end KDown
