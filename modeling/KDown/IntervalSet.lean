/-
KDown/IntervalSet.lean

Normalized sets of inclusive byte ranges (scheduler/interval_set.rs).

The source keeps a `BTreeMap<u64, u64>` from a range's start to its inclusive
end and renormalizes on every insertion.  Here the map is a `SortedMap ℕ ℕ`
and the normal form is a field of `IntervalSet`, so a value that overlaps or
leaves two adjacent ranges unmerged cannot be built.

Offsets are natural numbers.  The source's `saturating_add(1)` on an end is
written `+ 1`: it is only ever compared with stored 64-bit keys, and a key is
at most the saturated sum exactly when it is at most the exact one.

The raw operations on maps follow the source; `insertRange_spec` and
`subtractRange_spec` say that they keep the normal form and compute union and
difference.  Every later module uses only the membership lemmas of the last
section.
-/
import KDown.SortedMap
import Mathlib.Algebra.BigOperators.Group.Finset.Sigma
import Mathlib.Algebra.Order.Ring.Nat
import Mathlib.Data.Set.Lattice
import Mathlib.Order.CompletePartialOrder
import Mathlib.Order.Interval.Finset.Nat

namespace KDown

/-- An inclusive byte range `[start, end]`. -/
abbrev ByteRange := ℕ × ℕ

/-- The largest 64-bit value. -/
def u64Max : ℕ := 2 ^ 64 - 1

namespace IntervalSet

/-! ### The normal form -/

/-- The byte `b` lies in one of the stored ranges. -/
def Covered (m : SortedMap ℕ ℕ) (b : ℕ) : Prop :=
  ∃ k v, m.get? k = some v ∧ k ≤ b ∧ b ≤ v

/-- Stored ranges are non-empty, and a later range starts at least two past
the end of an earlier one. -/
structure Canonical (m : SortedMap ℕ ℕ) : Prop where
  nonempty : ∀ {k v}, m.get? k = some v → k ≤ v
  apart : ∀ {k v k' v'}, m.get? k = some v → m.get? k' = some v' → k < k' → v + 1 < k'

theorem canonical_empty : Canonical SortedMap.empty where
  nonempty := by intro k v h; simp at h
  apart := by intro k v k' v' h; simp at h

theorem Canonical.erase {m : SortedMap ℕ ℕ} (hm : Canonical m) (k : ℕ) :
    Canonical (m.erase k) where
  nonempty := by
    intro a v h
    rw [SortedMap.get?_erase] at h
    split_ifs at h
    exact hm.nonempty h
  apart := by
    intro a v a' v' h h' hlt
    rw [SortedMap.get?_erase] at h h'
    split_ifs at h h'
    exact hm.apart h h' hlt

/-- Two stored ranges that share a byte are the same range. -/
theorem Canonical.same {m : SortedMap ℕ ℕ} (hm : Canonical m) {k v k' v' b : ℕ}
    (h : m.get? k = some v) (h' : m.get? k' = some v')
    (hb : k ≤ b ∧ b ≤ v) (hb' : k' ≤ b ∧ b ≤ v') : k = k' := by
  rcases lt_trichotomy k k' with hlt | heq | hgt
  · have := hm.apart h h' hlt; omega
  · exact heq
  · have := hm.apart h' h hgt; omega

/-- A non-empty range at a distance from every entry can be stored as it is. -/
theorem Canonical.insert {m : SortedMap ℕ ℕ} (hm : Canonical m) {lo hi : ℕ} (hord : lo ≤ hi)
    (hapart : ∀ {k v}, m.get? k = some v → v + 1 < lo ∨ hi + 1 < k) :
    Canonical (m.insert lo hi) ∧
      ∀ b, Covered (m.insert lo hi) b ↔ Covered m b ∨ lo ≤ b ∧ b ≤ hi := by
  refine ⟨⟨fun {k v} h => ?_, fun {k v k' v'} h h' hlt => ?_⟩, fun b => ?_⟩
  · rw [SortedMap.get?_insert] at h
    split_ifs at h with hk
    · cases h; omega
    · exact hm.nonempty h
  · rw [SortedMap.get?_insert] at h h'
    -- both new, one new, or both old
    split_ifs at h h' with hk hk' hk'
    · omega
    · cases h
      have := hapart h'
      have := hm.nonempty h'
      omega
    · cases h'
      have := hapart h
      omega
    · exact hm.apart h h' hlt
  · constructor
    · rintro ⟨k, v, h, hb⟩
      rw [SortedMap.get?_insert] at h
      split_ifs at h with hk
      · cases h; exact .inr (hk ▸ hb)
      · exact .inl ⟨k, v, h, hb⟩
    · rintro (⟨k, v, h, hb⟩ | hb)
      · -- an entry under the key `lo` would touch the range
        have hk : k ≠ lo := by
          rintro rfl
          have := hapart h
          have := hm.nonempty h
          omega
        exact ⟨k, v, by rw [SortedMap.get?_insert_of_ne _ _ hk]; exact h, hb⟩
      · exact ⟨lo, hi, SortedMap.get?_insert_self _ _ _, hb⟩

/-! ### Insertion -/

/-- Absorb the predecessor of `[start, end]` when it overlaps or touches.
Returns the remaining map and the widened range. -/
def absorbPredecessor (m : SortedMap ℕ ℕ) (start stop : ℕ) : SortedMap ℕ ℕ × ByteRange :=
  match (m.range (· ≤ start)).getLast? with
  | some (k, v) =>
      -- `start - 1` saturates, as in the source: at zero every predecessor touches
      if start - 1 ≤ v then (m.erase k, (min start k, max stop v)) else (m, (start, stop))
  | none => (m, (start, stop))

/-- Absorb successors while they overlap or touch.  Every round removes an
entry, so the number of entries bounds the rounds. -/
def absorbSuccessors : ℕ → SortedMap ℕ ℕ → ByteRange → SortedMap ℕ ℕ × ByteRange
  | 0, m, r => (m, r)
  | fuel + 1, m, (lo, hi) =>
      match (m.range (lo ≤ ·)).head? with
      | some (k, v) =>
          if k ≤ hi + 1 then absorbSuccessors fuel (m.erase k) (min lo k, max hi v)
          else (m, (lo, hi))
      | none => (m, (lo, hi))

/-- Insert `[start, end]` and renormalize; an empty range contributes nothing. -/
def insertRange (m : SortedMap ℕ ℕ) (start stop : ℕ) : SortedMap ℕ ℕ :=
  if stop < start then m
  else
    let p := absorbPredecessor m start stop
    let s := absorbSuccessors p.1.length p.1 p.2
    s.1.insert s.2.1 s.2.2

/-- The state of the merge: a map in normal form beside a pending range, with
every earlier entry at a distance from the pending range. -/
structure Pending (m : SortedMap ℕ ℕ) (r : ByteRange) : Prop where
  canonical : Canonical m
  ordered : r.1 ≤ r.2
  below : ∀ {k v}, m.get? k = some v → k < r.1 → v + 1 < r.1

/-- Both merge steps keep the bytes of the map and the pending range. -/
def SameBytes (m : SortedMap ℕ ℕ) (r : ByteRange) (m' : SortedMap ℕ ℕ) (r' : ByteRange) :
    Prop :=
  ∀ b, (Covered m b ∨ r.1 ≤ b ∧ b ≤ r.2) ↔ (Covered m' b ∨ r'.1 ≤ b ∧ b ≤ r'.2)

/-- Moving an entry that touches the pending range into it keeps the bytes. -/
theorem sameBytes_erase {m : SortedMap ℕ ℕ} {k v lo hi : ℕ} (hget : m.get? k = some v)
    (hkv : k ≤ v) (hlo : lo ≤ v + 1) (hhi : k ≤ hi + 1) :
    SameBytes m (lo, hi) (m.erase k) (min lo k, max hi v) := by
  intro b
  constructor
  · rintro (⟨a, w, ha, hb⟩ | hb)
    · by_cases hak : a = k
      · subst hak
        obtain rfl : v = w := Option.some.inj (hget.symm.trans ha)
        exact .inr (by simp only; omega)
      · exact .inl ⟨a, w, by rw [SortedMap.get?_erase_of_ne _ hak]; exact ha, hb⟩
    · exact .inr (by simp only at hb ⊢; omega)
  · rintro (⟨a, w, ha, hb⟩ | hb)
    · rw [SortedMap.get?_erase] at ha
      split_ifs at ha
      exact .inl ⟨a, w, ha, hb⟩
    · by_cases hr : lo ≤ b ∧ b ≤ hi
      · exact .inr hr
      · exact .inl ⟨k, v, hget, by simp only at hb; omega⟩

/-- **The predecessor is taken in** without a byte lost or gained. -/
theorem absorbPredecessor_spec {m : SortedMap ℕ ℕ} (hm : Canonical m) {start stop : ℕ}
    (hord : start ≤ stop) :
    Pending (absorbPredecessor m start stop).1 (absorbPredecessor m start stop).2 ∧
      SameBytes m (start, stop)
        (absorbPredecessor m start stop).1 (absorbPredecessor m start stop).2 := by
  unfold absorbPredecessor
  rcases e : (m.range (· ≤ start)).getLast? with - | ⟨k, v⟩
  · -- no entry starts at or before `start`
    refine ⟨⟨hm, hord, fun {k v} h hlt => ?_⟩, fun b => Iff.rfl⟩
    have := SortedMap.range_eq_nil (List.getLast?_eq_none_iff.mp e) h
    simp only [decide_eq_true_eq] at this
    simp only at hlt
    omega
  · obtain ⟨hget, hk, hmax⟩ := SortedMap.getLast?_range_eq_some e
    simp only [decide_eq_true_eq] at hk hmax
    have hkv := hm.nonempty hget
    simp only
    split_ifs with htouch
    · -- the predecessor is merged: entries below it keep their distance
      refine ⟨⟨hm.erase k, by simp only; omega, fun {a w} ha hlt => ?_⟩,
        sameBytes_erase hget hkv (by omega) (by omega)⟩
      rw [SortedMap.get?_erase] at ha
      split_ifs at ha
      simp only [min_eq_right hk] at hlt ⊢
      exact hm.apart ha hget hlt
    · refine ⟨⟨hm, hord, fun {a w} ha hlt => ?_⟩, fun b => Iff.rfl⟩
      simp only at hlt ⊢
      rcases lt_or_eq_of_le (hmax a w ha (by omega)) with hak | rfl
      · have := hm.apart ha hget hak; omega
      · obtain rfl : v = w := Option.some.inj (hget.symm.trans ha)
        omega

/-- With at least one round per entry the merge ends where no entry from the
pending range on touches it. -/
theorem absorbSuccessors_spec (fuel : ℕ) {m : SortedMap ℕ ℕ} {r : ByteRange}
    (hp : Pending m r) (hfuel : m.length ≤ fuel) :
    Pending (absorbSuccessors fuel m r).1 (absorbSuccessors fuel m r).2 ∧
      SameBytes m r (absorbSuccessors fuel m r).1 (absorbSuccessors fuel m r).2 ∧
      ∀ {k v}, (absorbSuccessors fuel m r).1.get? k = some v →
        (absorbSuccessors fuel m r).2.1 ≤ k → (absorbSuccessors fuel m r).2.2 + 1 < k := by
  -- induction on the rounds; the map shrinks with the fuel
  induction fuel generalizing m r with
  | zero =>
    refine ⟨hp, fun b => Iff.rfl, fun {k v} h => ?_⟩
    have hnone := SortedMap.length_eq_zero_iff.mp (Nat.le_zero.mp hfuel) k
    simp only [absorbSuccessors] at h
    rw [hnone] at h
    cases h
  | succ fuel ih =>
    obtain ⟨lo, hi⟩ := r
    unfold absorbSuccessors
    rcases e : (m.range (lo ≤ ·)).head? with - | ⟨k, v⟩
    · -- no entry from `lo` on
      refine ⟨hp, fun b => Iff.rfl, fun {k v} h hle => ?_⟩
      have := SortedMap.range_eq_nil (List.head?_eq_none_iff.mp e) h
      simp only [decide_eq_true_eq] at this
      exact absurd hle this
    · obtain ⟨hget, hk, hmin⟩ := SortedMap.head?_range_eq_some e
      simp only [decide_eq_true_eq] at hk hmin
      have hkv := hp.canonical.nonempty hget
      have hord := hp.ordered
      simp only
      split_ifs with htouch
      · -- the entry is merged and the search goes on
        have hp' : Pending (m.erase k) (min lo k, max hi v) := by
          refine ⟨hp.canonical.erase k, by simp only at hord ⊢; omega, fun {a w} ha hlt => ?_⟩
          rw [SortedMap.get?_erase] at ha
          split_ifs at ha
          simp only [min_eq_left hk] at hlt ⊢
          exact hp.below ha hlt
        have hlen := SortedMap.length_erase hget
        obtain ⟨h₁, h₂, h₃⟩ := ih hp' (by omega)
        refine ⟨h₁, fun b => ?_, h₃⟩
        exact (sameBytes_erase hget hkv (by omega) htouch b).trans (h₂ b)
      · -- the first entry is too far, so all later ones are
        refine ⟨hp, fun b => Iff.rfl, fun {a w} ha hle => ?_⟩
        have := hmin a w ha hle
        simp only
        omega

/-- **Insertion keeps the normal form and adds exactly the bytes of the range.** -/
theorem insertRange_spec {m : SortedMap ℕ ℕ} (hm : Canonical m) (start stop : ℕ) :
    Canonical (insertRange m start stop) ∧
      ∀ b, Covered (insertRange m start stop) b ↔ Covered m b ∨ start ≤ b ∧ b ≤ stop := by
  unfold insertRange
  split_ifs with hord
  · exact ⟨hm, fun b => ⟨.inl, fun h => h.resolve_right (by omega)⟩⟩
  obtain ⟨hp, hsame⟩ := absorbPredecessor_spec hm (not_lt.mp hord)
  obtain ⟨hs, hsame', habove⟩ := absorbSuccessors_spec _ hp le_rfl
  -- after both merges the pending range is at a distance on both sides
  obtain ⟨hcanon, hcov⟩ := hs.canonical.insert hs.ordered fun {k v} h => by
    rcases lt_or_ge k _ with hlt | hge
    · exact .inl (hs.below h hlt)
    · exact .inr (habove h hge)
  exact ⟨hcanon, fun b => (hcov b).trans ((hsame' b).symm.trans (hsame b).symm)⟩

/-! ### Subtraction -/

/-- Replace one stored range by what is left of it outside `[start, end]`. -/
def cutEntry (start stop : ℕ) (m : SortedMap ℕ ℕ) (e : ByteRange) : SortedMap ℕ ℕ :=
  let m := m.erase e.1
  let m := if e.1 < start then m.insert e.1 (start - 1) else m
  if stop < e.2 then m.insert (stop + 1) e.2 else m

/-- The stored ranges that meet `[start, end]`: those that start inside it, and
the one that spans across `start` from below. -/
def entriesToSplit (m : SortedMap ℕ ℕ) (start stop : ℕ) : List ByteRange :=
  m.range (fun k => start ≤ k && k ≤ stop) ++
    match (m.range (· < start)).getLast? with
    | some (k, v) => if start ≤ v then [(k, v)] else []
    | none => []

/-- Remove `[start, end]`. -/
def subtractRange (m : SortedMap ℕ ℕ) (start stop : ℕ) : SortedMap ℕ ℕ :=
  if stop < start then m
  else (entriesToSplit m start stop).foldl (cutEntry start stop) m

theorem covered_erase {m : SortedMap ℕ ℕ} (hm : Canonical m) {k v : ℕ}
    (hget : m.get? k = some v) (b : ℕ) :
    Covered (m.erase k) b ↔ Covered m b ∧ ¬ (k ≤ b ∧ b ≤ v) := by
  constructor
  · rintro ⟨a, w, ha, hb⟩
    rw [SortedMap.get?_erase] at ha
    split_ifs at ha with hak
    exact ⟨⟨a, w, ha, hb⟩, fun hkv => hak (hm.same ha hget hb hkv)⟩
  · rintro ⟨⟨a, w, ha, hb⟩, hout⟩
    have hak : a ≠ k := by
      rintro rfl
      obtain rfl : v = w := Option.some.inj (hget.symm.trans ha)
      exact hout hb
    exact ⟨a, w, by rw [SortedMap.get?_erase_of_ne _ hak]; exact ha, hb⟩

/-- Put back one piece of a range that was cut, if it is not empty.  The other
entries lie at a distance. -/
theorem Canonical.insertPiece {m : SortedMap ℕ ℕ} (hm : Canonical m) (c : Prop) [Decidable c]
    (lo hi : ℕ) (hord : c → lo ≤ hi)
    (hapart : c → ∀ {k v}, m.get? k = some v → v + 1 < lo ∨ hi + 1 < k) :
    Canonical (if c then m.insert lo hi else m) ∧
      (∀ b, Covered (if c then m.insert lo hi else m) b ↔ Covered m b ∨ c ∧ lo ≤ b ∧ b ≤ hi) ∧
      (∀ {a w}, (if c then m.insert lo hi else m).get? a = some w →
        m.get? a = some w ∨ c ∧ a = lo ∧ w = hi) ∧
      ∀ {a w}, m.get? a = some w → (if c then m.insert lo hi else m).get? a = some w := by
  by_cases hc : c
  · obtain ⟨hcanon, hcov⟩ := hm.insert (hord hc) (hapart hc)
    simp only [hc, if_true, true_and]
    refine ⟨hcanon, hcov, fun {a w} ha => ?_, fun {a w} ha => ?_⟩
    · rw [SortedMap.get?_insert] at ha
      split_ifs at ha with hak
      · cases ha
        exact .inr ⟨hak, rfl⟩
      · exact .inl ha
    · have hne : a ≠ lo := by
        rintro rfl
        have := hapart hc ha
        have := hm.nonempty ha
        have := hord hc
        omega
      rw [SortedMap.get?_insert_of_ne _ _ hne, ha]
  · simp only [hc, if_false, false_and, or_false]
    exact ⟨hm, fun _ => trivial, id, id⟩

/-- Cutting one stored range keeps the normal form, removes exactly the bytes
the range shares with `[start, end]`, and keeps the other entries. -/
theorem cutEntry_spec {m : SortedMap ℕ ℕ} (hm : Canonical m) {start stop k v : ℕ}
    (hord : start ≤ stop) (hget : m.get? k = some v) (hmeet : k ≤ stop ∧ start ≤ v) :
    Canonical (cutEntry start stop m (k, v)) ∧
      (∀ b, Covered (cutEntry start stop m (k, v)) b ↔
        Covered m b ∧ ¬ ((k ≤ b ∧ b ≤ v) ∧ start ≤ b ∧ b ≤ stop)) ∧
      ∀ {a w}, m.get? a = some w → a ≠ k → (cutEntry start stop m (k, v)).get? a = some w := by
  have hfar : ∀ {a w}, (m.erase k).get? a = some w → w + 1 < k ∨ v + 1 < a := by
    intro a w ha
    rw [SortedMap.get?_erase] at ha
    split_ifs at ha with hak
    rcases lt_or_gt_of_ne hak with hlt | hgt
    · exact .inl (hm.apart ha hget hlt)
    · exact .inr (hm.apart hget ha hgt)
  -- the left piece, then the right one; the two are separated by the cut
  obtain ⟨hc₁, hcov₁, hget₁, hkeep₁⟩ := (hm.erase k).insertPiece (k < start) k
    (start - 1) (by omega) fun _ {a w} ha => by rcases hfar ha with h | h <;> omega
  obtain ⟨hc₂, hcov₂, -, hkeep₂⟩ := hc₁.insertPiece (stop < v) (stop + 1) v
    (by omega) fun _ {a w} ha => by
      rcases hget₁ ha with ha | ⟨hks, -, rfl⟩
      · rcases hfar ha with h | h <;> omega
      · omega
  refine ⟨hc₂, fun b => ?_, fun {a w} ha hak => ?_⟩
  · refine (hcov₂ b).trans ?_
    rw [hcov₁, covered_erase hm hget]
    constructor
    · rintro ((⟨h, hn⟩ | h) | h)
      · exact ⟨h, fun h' => hn h'.1⟩
      · exact ⟨⟨k, v, hget, by omega⟩, by omega⟩
      · exact ⟨⟨k, v, hget, by omega⟩, by omega⟩
    · rintro ⟨h, hn⟩
      by_cases hin : k ≤ b ∧ b ≤ v
      · omega
      · exact .inl (.inl ⟨h, hin⟩)
  · exact hkeep₂ (hkeep₁ (by rw [SortedMap.get?_erase_of_ne _ hak, ha]))

/-- Cutting a list of distinct stored ranges one after the other. -/
theorem foldl_cutEntry_spec {start stop : ℕ} (hord : start ≤ stop) (l : List ByteRange)
    {m : SortedMap ℕ ℕ} (hm : Canonical m) (hnd : (l.map Prod.fst).Nodup)
    (hmem : ∀ e ∈ l, m.get? e.1 = some e.2 ∧ e.1 ≤ stop ∧ start ≤ e.2) :
    Canonical (l.foldl (cutEntry start stop) m) ∧
      ∀ b, Covered (l.foldl (cutEntry start stop) m) b ↔
        Covered m b ∧ ¬ ((∃ e ∈ l, e.1 ≤ b ∧ b ≤ e.2) ∧ start ≤ b ∧ b ≤ stop) := by
  induction l generalizing m with
  | nil => simpa using hm
  | cons e l ih =>
    obtain ⟨k, v⟩ := e
    obtain ⟨hget, hmeet⟩ := hmem _ (List.mem_cons_self ..)
    obtain ⟨hnot, hnd⟩ := List.nodup_cons.mp hnd
    obtain ⟨hc, hcov, hkeep⟩ := cutEntry_spec hm hord hget hmeet
    obtain ⟨hc', hcov'⟩ := ih hc hnd fun e' he' => by
      obtain ⟨hget', hmeet'⟩ := hmem e' (List.mem_cons_of_mem _ he')
      exact ⟨hkeep hget' fun heq => hnot (heq ▸ List.mem_map_of_mem he'), hmeet'⟩
    refine ⟨hc', fun b => ?_⟩
    rw [List.foldl_cons, hcov' b, hcov b]
    rw [List.exists_mem_cons_iff, or_and_right, not_or, and_assoc]

/-- The entries that are split are those that meet the range. -/
theorem mem_entriesToSplit {m : SortedMap ℕ ℕ} (hm : Canonical m) {start stop : ℕ}
    (hord : start ≤ stop) (k v : ℕ) :
    (k, v) ∈ entriesToSplit m start stop ↔ m.get? k = some v ∧ k ≤ stop ∧ start ≤ v := by
  unfold entriesToSplit
  rw [List.mem_append, SortedMap.mem_range]
  simp only [Bool.and_eq_true, decide_eq_true_eq]
  -- split on the one entry that may span `start` from below
  rcases e : (m.range (· < start)).getLast? with - | ⟨a, w⟩
  · constructor
    · rintro (⟨hget, hk⟩ | h)
      · have := hm.nonempty hget
        exact ⟨hget, by omega⟩
      · cases h
    · rintro ⟨hget, hk⟩
      have := SortedMap.range_eq_nil (List.getLast?_eq_none_iff.mp e) hget
      simp only [decide_eq_true_eq] at this
      exact .inl ⟨hget, by omega⟩
  · obtain ⟨hgeta, ha, hmax⟩ := SortedMap.getLast?_range_eq_some e
    simp only [decide_eq_true_eq] at ha hmax
    constructor
    · rintro (⟨hget, hk⟩ | h)
      · have := hm.nonempty hget
        exact ⟨hget, by omega⟩
      · simp only at h
        split_ifs at h with hw
        · obtain ⟨rfl, rfl⟩ := Prod.mk.inj (List.mem_singleton.mp h)
          exact ⟨hgeta, by omega⟩
        · cases h
    · rintro ⟨hget, hk⟩
      by_cases hks : start ≤ k
      · exact .inl ⟨hget, by omega⟩
      -- an entry below `start` that reaches it is the last entry below `start`
      have hka : k = a := by
        rcases lt_or_eq_of_le (hmax k v hget (by omega)) with hlt | heq
        · have := hm.apart hget hgeta hlt; omega
        · exact heq
      subst hka
      obtain rfl : v = w := Option.some.inj (hget.symm.trans hgeta)
      right
      simp only [if_pos hk.2]
      exact List.mem_singleton_self _

/-- None of them is split twice. -/
theorem nodup_entriesToSplit {m : SortedMap ℕ ℕ} (start stop : ℕ) :
    ((entriesToSplit m start stop).map Prod.fst).Nodup := by
  have hrange : ((m.range (fun k => start ≤ k && k ≤ stop)).map Prod.fst).Nodup :=
    List.Nodup.sublist (List.filter_sublist.map _) m.nodup_keys
  unfold entriesToSplit
  rcases e : (m.range (· < start)).getLast? with - | ⟨a, w⟩
  · simpa using hrange
  simp only
  split_ifs with hw
  · obtain ⟨-, ha, -⟩ := SortedMap.getLast?_range_eq_some e
    simp only [decide_eq_true_eq] at ha
    rw [List.map_append]
    -- the spanning entry starts below `start`, the others do not
    refine List.Nodup.append hrange (by simp) fun k hk hk' => ?_
    obtain ⟨⟨k', v⟩, hkv, rfl⟩ := List.mem_map.mp hk
    obtain ⟨-, hp⟩ := SortedMap.mem_range.mp hkv
    simp only [Bool.and_eq_true, decide_eq_true_eq] at hp
    simp only [List.map_cons, List.map_nil, List.mem_singleton] at hk'
    omega
  · simpa using hrange

/-- Subtraction keeps the normal form and removes exactly the bytes of the
range. -/
theorem subtractRange_spec {m : SortedMap ℕ ℕ} (hm : Canonical m) (start stop : ℕ) :
    Canonical (subtractRange m start stop) ∧
      ∀ b, Covered (subtractRange m start stop) b ↔
        Covered m b ∧ ¬ (start ≤ b ∧ b ≤ stop) := by
  unfold subtractRange
  split_ifs with hord
  · exact ⟨hm, fun b => ⟨fun h => ⟨h, by omega⟩, fun h => h.1⟩⟩
  rw [not_lt] at hord
  obtain ⟨hc, hcov⟩ := foldl_cutEntry_spec hord (entriesToSplit m start stop) hm
    (nodup_entriesToSplit start stop) fun e he => (mem_entriesToSplit hm hord e.1 e.2).mp he
  refine ⟨hc, fun b => (hcov b).trans (and_congr_right fun hb => ?_)⟩
  refine not_congr ⟨fun h => h.2, fun h => ⟨?_, h⟩⟩
  -- the entry that covers the byte is among those that are cut
  obtain ⟨k, v, hget, hkv⟩ := hb
  exact ⟨(k, v), (mem_entriesToSplit hm hord k v).mpr ⟨hget, by omega⟩, hkv⟩

end IntervalSet

/-! ### The set -/

/-- Normalized set of inclusive byte ranges. -/
structure IntervalSet where
  map : SortedMap ℕ ℕ
  canonical : IntervalSet.Canonical map

namespace IntervalSet

instance : DecidableEq IntervalSet := fun a b =>
  decidable_of_iff (a.map = b.map)
    ⟨fun h => by cases a; cases b; cases h; rfl, fun h => h ▸ rfl⟩

/-- The bytes a set covers. -/
instance : Membership ℕ IntervalSet := ⟨fun s b => Covered s.map b⟩

/-- No byte. -/
def new : IntervalSet := ⟨SortedMap.empty, canonical_empty⟩

/-- Insert `[start, end]` and renormalize. -/
def insert (s : IntervalSet) (start stop : ℕ) : IntervalSet :=
  ⟨insertRange s.map start stop, (insertRange_spec s.canonical start stop).1⟩

/-- Remove `[start, end]`; used to consume pending work. -/
def subtract (s : IntervalSet) (start stop : ℕ) : IntervalSet :=
  ⟨subtractRange s.map start stop, (subtractRange_spec s.canonical start stop).1⟩

/-- Insert every range of a list. -/
def insertAll (s : IntervalSet) (ranges : List ByteRange) : IntervalSet :=
  ranges.foldl (fun s r => s.insert r.1 r.2) s

/-- Build from (possibly unsorted or overlapping) ranges. -/
def fromRanges (ranges : List ByteRange) : IntervalSet := new.insertAll ranges

/-- Whether the byte `offset` is covered. -/
def contains (s : IntervalSet) (offset : ℕ) : Bool :=
  match (s.map.range (· ≤ offset)).getLast? with
  | some (k, v) => k ≤ offset && offset ≤ v
  | none => false

/-- First uncovered byte at or after `start` within `limit` (inclusive). -/
def firstGapFrom (s : IntervalSet) (start limit : ℕ) : Option ℕ :=
  if limit < start then none
  else if s.contains start then
    match (s.map.range (· ≤ start)).getLast? with
    | some (_, v) => if limit ≤ v then none else some (v + 1)
    | none => none
  else some start

/-- Sorted inclusive ranges. -/
def ranges (s : IntervalSet) : List ByteRange := s.map.entries

/-- Inclusive total byte count. -/
def len (s : IntervalSet) : ℕ := (s.ranges.map fun r => r.2 - r.1 + 1).sum

/-- The set has no byte. -/
def isEmpty (s : IntervalSet) : Bool := s.map.entries.isEmpty

/-- Union coverage of two sets. -/
def union (s other : IntervalSet) : IntervalSet := s.insertAll other.ranges

/-- The gaps before, between and after the listed ranges, from `next` on. -/
def complementFrom (total : ℕ) : ℕ → List ByteRange → List ByteRange
  | next, [] => if next < total then [(next, total - 1)] else []
  | next, (k, v) :: rest =>
      if next < k then (next, k - 1) :: complementFrom total (v + 1) rest
      else complementFrom total (v + 1) rest

/-- Complement within `[0, total - 1]`. -/
def complementWithin (s : IntervalSet) (total : ℕ) : List ByteRange :=
  complementFrom total 0 s.ranges

/-! ### Membership -/

theorem mem_iff_ranges {s : IntervalSet} {b : ℕ} :
    b ∈ s ↔ ∃ r ∈ s.ranges, r.1 ≤ b ∧ b ≤ r.2 := by
  constructor
  · rintro ⟨k, v, h, hb⟩
    exact ⟨(k, v), SortedMap.mem_entries.mpr h, hb⟩
  · rintro ⟨⟨k, v⟩, h, hb⟩
    exact ⟨k, v, SortedMap.mem_entries.mp h, hb⟩

@[simp] theorem not_mem_new (b : ℕ) : b ∉ new := by
  rintro ⟨k, v, h, -⟩
  simp [new] at h

@[simp] theorem mem_insert {s : IntervalSet} {start stop b : ℕ} :
    b ∈ s.insert start stop ↔ b ∈ s ∨ start ≤ b ∧ b ≤ stop :=
  (insertRange_spec s.canonical start stop).2 b

@[simp] theorem mem_subtract {s : IntervalSet} {start stop b : ℕ} :
    b ∈ s.subtract start stop ↔ b ∈ s ∧ ¬ (start ≤ b ∧ b ≤ stop) :=
  (subtractRange_spec s.canonical start stop).2 b

theorem mem_insertAll {s : IntervalSet} {l : List ByteRange} {b : ℕ} :
    b ∈ s.insertAll l ↔ b ∈ s ∨ ∃ r ∈ l, r.1 ≤ b ∧ b ≤ r.2 := by
  induction l generalizing s with
  | nil => simp [insertAll]
  | cons r l ih =>
    have hcons : s.insertAll (r :: l) = (s.insert r.1 r.2).insertAll l := rfl
    rw [hcons, ih, mem_insert, or_assoc, List.exists_mem_cons_iff]

theorem mem_fromRanges {l : List ByteRange} {b : ℕ} :
    b ∈ fromRanges l ↔ ∃ r ∈ l, r.1 ≤ b ∧ b ≤ r.2 := by
  rw [fromRanges, mem_insertAll]
  simp

theorem mem_union {s other : IntervalSet} {b : ℕ} : b ∈ s.union other ↔ b ∈ s ∨ b ∈ other := by
  rw [union, mem_insertAll, mem_iff_ranges (s := other)]

theorem ordered_of_mem_ranges {s : IntervalSet} {r : ByteRange} (h : r ∈ s.ranges) :
    r.1 ≤ r.2 :=
  s.canonical.nonempty (SortedMap.mem_entries.mp h)

theorem contains_eq_true {s : IntervalSet} {b : ℕ} : s.contains b = true ↔ b ∈ s := by
  unfold contains
  rcases e : (s.map.range (· ≤ b)).getLast? with - | ⟨k, v⟩
  · simp only [Bool.false_eq_true, false_iff]
    rintro ⟨k, v, h, hb⟩
    have := SortedMap.range_eq_nil (List.getLast?_eq_none_iff.mp e) h
    simp only [decide_eq_true_eq] at this
    omega
  · obtain ⟨hget, hk, hmax⟩ := SortedMap.getLast?_range_eq_some e
    simp only [decide_eq_true_eq] at hk hmax
    simp only [Bool.and_eq_true, decide_eq_true_eq]
    refine ⟨fun h => ⟨k, v, hget, h⟩, ?_⟩
    rintro ⟨k', v', hget', hb⟩
    rcases lt_or_eq_of_le (hmax k' v' hget' hb.1) with hlt | rfl
    · have := s.canonical.apart hget' hget hlt; omega
    · obtain rfl : v = v' := Option.some.inj (hget.symm.trans hget')
      exact hb

/-- Everything before the first gap is covered. -/
theorem mem_of_firstGapFrom {s : IntervalSet} {start limit g b : ℕ}
    (h : s.firstGapFrom start limit = some g) (hb : start ≤ b ∧ b < g) : b ∈ s := by
  unfold firstGapFrom at h
  split_ifs at h with hlim hcon
  · rcases e : (s.map.range (· ≤ start)).getLast? with - | ⟨k, v⟩ <;> rw [e] at h
    · cases h
    · simp only at h
      split_ifs at h
      cases h
      obtain ⟨hget, hk, -⟩ := SortedMap.getLast?_range_eq_some e
      simp only [decide_eq_true_eq] at hk
      exact ⟨k, v, hget, by omega⟩
  · cases h; omega

/-- The first gap is not covered. -/
theorem not_mem_firstGapFrom {s : IntervalSet} {start limit g : ℕ}
    (h : s.firstGapFrom start limit = some g) : start ≤ g ∧ g ∉ s := by
  unfold firstGapFrom at h
  split_ifs at h with hlim hcon
  · rcases e : (s.map.range (· ≤ start)).getLast? with - | ⟨k, v⟩ <;> rw [e] at h
    · cases h
    · simp only at h
      split_ifs at h
      cases h
      obtain ⟨hget, -, -⟩ := SortedMap.getLast?_range_eq_some e
      have hstart : start ≤ v := by
        simp only [contains, e, Bool.and_eq_true, decide_eq_true_eq] at hcon
        exact hcon.2
      refine ⟨hstart.trans (Nat.le_succ v), ?_⟩
      -- the next range begins at a distance from the one that ends at `v`
      rintro ⟨k', v', hget', hb⟩
      rcases lt_trichotomy k' k with hlt | rfl | hgt
      · have := s.canonical.apart hget' hget hlt
        have := s.canonical.nonempty hget
        omega
      · obtain rfl : v' = v := Option.some.inj (hget'.symm.trans hget)
        omega
      · have := s.canonical.apart hget hget' hgt
        omega
  · cases h
    exact ⟨le_rfl, fun hno => hcon (contains_eq_true.mpr hno)⟩

/-- Without a gap everything up to the limit is covered. -/
theorem mem_of_firstGapFrom_none {s : IntervalSet} {start limit b : ℕ}
    (h : s.firstGapFrom start limit = none) (hb : start ≤ b ∧ b ≤ limit) : b ∈ s := by
  unfold firstGapFrom at h
  split_ifs at h with hlim hcon
  · omega
  · rcases e : (s.map.range (· ≤ start)).getLast? with - | ⟨k, v⟩ <;> rw [e] at h
    · simp [contains, e] at hcon
    · simp only at h
      split_ifs at h
      obtain ⟨hget, hk, -⟩ := SortedMap.getLast?_range_eq_some e
      simp only [decide_eq_true_eq] at hk
      exact ⟨k, v, hget, by omega⟩

/-- An empty set is one without bytes. -/
theorem isEmpty_iff {s : IntervalSet} : s.isEmpty = true ↔ ∀ b, b ∉ s := by
  rw [isEmpty, List.isEmpty_iff]
  constructor
  · intro h b hb
    obtain ⟨r, hr, -⟩ := mem_iff_ranges.mp hb
    rw [ranges, h] at hr
    cases hr
  · intro h
    rcases e : s.map.entries with - | ⟨⟨k, v⟩, rest⟩
    · rfl
    · have hmem : (k, v) ∈ s.ranges := by rw [ranges, e]; exact List.mem_cons_self ..
      exact absurd (mem_iff_ranges.mpr ⟨_, hmem, le_rfl, ordered_of_mem_ranges hmem⟩) (h k)

/-! ### Complement and size -/

/-- Sorted ranges from `next` on, each at a distance from the one before. -/
theorem pairwise_ranges (s : IntervalSet) :
    s.ranges.Pairwise fun a b => a.2 + 1 < b.1 := by
  refine s.map.sorted.imp_of_mem fun {a b} ha hb hlt => ?_
  exact s.canonical.apart (SortedMap.mem_entries.mp ha) (SortedMap.mem_entries.mp hb) hlt

/-- The complement of a sorted list has the bytes that no range of it has. -/
theorem mem_complementFrom {total : ℕ} {l : List ByteRange}
    (hl : l.Pairwise fun a b => a.2 + 1 < b.1) (hbound : ∀ r ∈ l, r.1 ≤ r.2 ∧ r.2 < total)
    (next : ℕ) (hnext : ∀ r ∈ l, next ≤ r.1) (b : ℕ) :
    (∃ r ∈ complementFrom total next l, r.1 ≤ b ∧ b ≤ r.2) ↔
      (next ≤ b ∧ b < total) ∧ ¬ ∃ r ∈ l, r.1 ≤ b ∧ b ≤ r.2 := by
  induction l generalizing next with
  | nil =>
    unfold complementFrom
    split_ifs with h
    · simp; omega
    · simp; omega
  | cons r l ih =>
    obtain ⟨k, v⟩ := r
    obtain ⟨hk, hl⟩ := List.pairwise_cons.mp hl
    obtain ⟨hkv, hvt⟩ := hbound _ (List.mem_cons_self ..)
    have hnk := hnext _ (List.mem_cons_self ..)
    have ih := ih hl (fun r hr => hbound r (List.mem_cons_of_mem _ hr))
      (v + 1) (fun r hr => (hk r hr).le)
    -- later ranges lie past `v`
    have hlater : (∃ r ∈ l, r.1 ≤ b ∧ b ≤ r.2) → v + 1 < b := by
      rintro ⟨r, hr, hb⟩
      have := hk r hr
      omega
    simp only at hkv hvt hnk
    unfold complementFrom
    split_ifs with hgap
    · rw [List.exists_mem_cons_iff, List.exists_mem_cons_iff, ih]
      by_cases hin : ∃ r ∈ l, r.1 ≤ b ∧ b ≤ r.2
      · have := hlater hin
        simp only [hin, not_true, and_false, or_true, or_false, iff_false]
        omega
      · simp only [hin, not_false_eq_true, and_true, or_false]
        omega
    · rw [List.exists_mem_cons_iff, ih]
      by_cases hin : ∃ r ∈ l, r.1 ≤ b ∧ b ≤ r.2
      · simp only [hin, not_true, and_false, or_true]
      · simp only [hin, not_false_eq_true, and_true, or_false]
        omega

/-- The complement of a set inside the domain. -/
theorem mem_complementWithin {s : IntervalSet} {total : ℕ} (h : ∀ b ∈ s, b < total) (b : ℕ) :
    (∃ r ∈ s.complementWithin total, r.1 ≤ b ∧ b ≤ r.2) ↔ b < total ∧ b ∉ s := by
  rw [complementWithin, mem_complementFrom s.pairwise_ranges, mem_iff_ranges]
  · simp
  · intro r hr
    have hord := ordered_of_mem_ranges hr
    exact ⟨hord, h _ (mem_iff_ranges.mpr ⟨r, hr, hord, le_rfl⟩)⟩
  · intro r _
    exact Nat.zero_le _

/-- Ranges at a distance from each other hold at most the bytes of the window
they lie in, and exactly that many only if they fill it. -/
theorem sum_length_le {total : ℕ} {l : List ByteRange}
    (hl : l.Pairwise fun a b => a.2 + 1 < b.1) (hbound : ∀ r ∈ l, r.1 ≤ r.2 ∧ r.2 < total)
    (next : ℕ) (hnext : ∀ r ∈ l, next ≤ r.1) :
    (l.map fun r => r.2 - r.1 + 1).sum ≤ total - next ∧
      ((l.map fun r => r.2 - r.1 + 1).sum = total - next →
        ∀ b, next ≤ b → b < total → ∃ r ∈ l, r.1 ≤ b ∧ b ≤ r.2) := by
  -- the window shrinks to what lies past the first range
  induction l generalizing next with
  | nil =>
    refine ⟨Nat.zero_le _, fun h b hb hbt => ?_⟩
    simp only [List.map_nil, List.sum_nil] at h
    omega
  | cons r l ih =>
    obtain ⟨k, v⟩ := r
    obtain ⟨hk, hl⟩ := List.pairwise_cons.mp hl
    obtain ⟨hkv, hvt⟩ := hbound _ (List.mem_cons_self ..)
    have hnk := hnext _ (List.mem_cons_self ..)
    obtain ⟨hle, hfill⟩ := ih hl (fun r hr => hbound r (List.mem_cons_of_mem _ hr))
      (v + 1) (fun r hr => (hk r hr).le)
    simp only at hkv hvt hnk
    rw [List.map_cons, List.sum_cons]
    simp only
    refine ⟨by omega, fun heq b hb hbt => ?_⟩
    rcases lt_or_ge v b with hvb | hbv
    · obtain ⟨r, hr, hrb⟩ := hfill (by omega) b hvb hbt
      exact ⟨r, List.mem_cons_of_mem _ hr, hrb⟩
    · exact ⟨(k, v), List.mem_cons_self .., by simp only; omega⟩

/-- A set inside `[0, total)` that counts `total` bytes covers the domain. -/
theorem mem_of_len_eq {s : IntervalSet} {total : ℕ} (h : ∀ b ∈ s, b < total)
    (hlen : s.len = total) {b : ℕ} (hb : b < total) : b ∈ s := by
  have hbound : ∀ r ∈ s.ranges, r.1 ≤ r.2 ∧ r.2 < total := by
    intro r hr
    have hord := ordered_of_mem_ranges hr
    exact ⟨hord, h _ (mem_iff_ranges.mpr ⟨r, hr, hord, le_rfl⟩)⟩
  obtain ⟨-, hfill⟩ := sum_length_le s.pairwise_ranges hbound
    0 fun r _ => Nat.zero_le _
  exact mem_iff_ranges.mpr (hfill hlen b (Nat.zero_le _) hb)

/-- The covered bytes as a finite set. -/
def toFinset (s : IntervalSet) : Finset ℕ :=
  s.ranges.toFinset.biUnion fun r => Finset.Icc r.1 r.2

@[simp] theorem mem_toFinset {s : IntervalSet} {b : ℕ} : b ∈ s.toFinset ↔ b ∈ s := by
  rw [mem_iff_ranges]
  simp [toFinset]

/-- The byte count is the number of covered bytes. -/
theorem card_toFinset (s : IntervalSet) : s.toFinset.card = s.len := by
  have hdisj : ∀ x ∈ s.ranges.toFinset, ∀ y ∈ s.ranges.toFinset, x ≠ y →
      Disjoint (Finset.Icc x.1 x.2) (Finset.Icc y.1 y.2) := by
    intro x hx y hy hne
    rw [List.mem_toFinset] at hx hy
    rw [Finset.disjoint_left]
    intro b hbx hby
    rw [Finset.mem_Icc] at hbx hby
    -- ranges that share a byte start at the same key, so they are one entry
    have hkey := s.canonical.same (SortedMap.mem_entries.mp hx) (SortedMap.mem_entries.mp hy)
      hbx hby
    exact hne (Prod.ext hkey (SortedMap.key_unique s.map.sorted hx (hkey ▸ hy)))
  have hnodup : s.ranges.Nodup := s.map.nodup_entries
  rw [toFinset, Finset.card_biUnion hdisj, List.sum_toFinset _ hnodup, len]
  refine congrArg List.sum (List.map_congr_left fun r hr => ?_)
  have := ordered_of_mem_ranges hr
  rw [Nat.card_Icc]
  omega

/-! ### Uniqueness of the normal form -/

/-- Non-empty ranges in order, no two of which touch. -/
structure NormalRanges (l : List ByteRange) : Prop where
  apart : l.Pairwise fun a b => a.2 + 1 < b.1
  ordered : ∀ r ∈ l, r.1 ≤ r.2

/-- The byte `b` lies in one of the listed ranges. -/
def InRanges (l : List ByteRange) (b : ℕ) : Prop := ∃ r ∈ l, r.1 ≤ b ∧ b ≤ r.2

theorem normalRanges_ranges (s : IntervalSet) : NormalRanges s.ranges :=
  ⟨s.pairwise_ranges, fun _ => ordered_of_mem_ranges⟩

theorem NormalRanges.tail {r : ByteRange} {l : List ByteRange} (h : NormalRanges (r :: l)) :
    NormalRanges l :=
  ⟨(List.pairwise_cons.mp h.apart).2, fun x hx => h.ordered x (List.mem_cons_of_mem _ hx)⟩

/-- The bytes past the first range are those of the other ranges. -/
theorem NormalRanges.inRanges_tail {r : ByteRange} {l : List ByteRange}
    (h : NormalRanges (r :: l)) (b : ℕ) : InRanges l b ↔ InRanges (r :: l) b ∧ r.2 + 1 < b := by
  constructor
  · rintro ⟨x, hx, hb⟩
    have := (List.pairwise_cons.mp h.apart).1 x hx
    exact ⟨⟨x, List.mem_cons_of_mem _ hx, hb⟩, by omega⟩
  · rintro ⟨⟨x, hx, hb⟩, hlt⟩
    rcases List.mem_cons.mp hx with rfl | hx
    · omega
    · exact ⟨x, hx, hb⟩

/-- The first range of a list begins at the least covered byte and ends right
before the first gap. -/
theorem NormalRanges.head_bounds {r : ByteRange} {l : List ByteRange}
    (h : NormalRanges (r :: l)) :
    (∀ b, InRanges (r :: l) b → r.1 ≤ b) ∧ (∀ b, r.1 ≤ b → b ≤ r.2 → InRanges (r :: l) b) ∧
      ¬ InRanges (r :: l) (r.2 + 1) := by
  have hr := h.ordered r (List.mem_cons_self ..)
  have hlow := (List.pairwise_cons.mp h.apart).1
  refine ⟨?_, ?_, ?_⟩
  · rintro b ⟨x, hx, hb⟩
    rcases List.mem_cons.mp hx with rfl | hx
    · exact hb.1
    · have := hlow x hx
      omega
  · intro b h₁ h₂
    exact ⟨r, List.mem_cons_self .., h₁, h₂⟩
  · rintro ⟨x, hx, hb⟩
    rcases List.mem_cons.mp hx with rfl | hx
    · omega
    · have := hlow x hx
      omega

/-- Two normal lists that cover the same bytes are the same list. -/
theorem NormalRanges.eq_of_inRanges {l l' : List ByteRange} (hl : NormalRanges l)
    (hl' : NormalRanges l') (h : ∀ b, InRanges l b ↔ InRanges l' b) : l = l' := by
  induction l generalizing l' with
  | nil =>
    rcases l' with - | ⟨r, l'⟩
    · rfl
    · have hr := hl'.ordered r (List.mem_cons_self ..)
      obtain ⟨x, hx, -⟩ := (h r.1).mpr ⟨r, List.mem_cons_self .., le_rfl, hr⟩
      cases hx
  | cons r l ih =>
    have hr := hl.ordered r (List.mem_cons_self ..)
    rcases l' with - | ⟨r', l'⟩
    · obtain ⟨x, hx, -⟩ := (h r.1).mp ⟨r, List.mem_cons_self .., le_rfl, hr⟩
      cases hx
    have hr' := hl'.ordered r' (List.mem_cons_self ..)
    obtain ⟨hmin, hin, hgap⟩ := hl.head_bounds
    obtain ⟨hmin', hin', hgap'⟩ := hl'.head_bounds
    have h₁ : r.1 = r'.1 := le_antisymm (hmin _ ((h _).mpr (hin' _ le_rfl hr')))
      (hmin' _ ((h _).mp (hin _ le_rfl hr)))
    have h₂ : r.2 = r'.2 := by
      rcases lt_trichotomy r.2 r'.2 with hlt | heq | hlt
      · exact absurd ((h _).mpr (hin' (r.2 + 1) (by omega) (by omega))) hgap
      · exact heq
      · exact absurd ((h _).mp (hin (r'.2 + 1) (by omega) (by omega))) hgap'
    obtain rfl : r = r' := Prod.ext h₁ h₂
    rw [ih hl.tail hl'.tail fun b => by
      rw [hl.inRanges_tail, hl'.inRanges_tail, h]]

end IntervalSet

end KDown
