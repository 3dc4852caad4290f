/-
KDown/IntervalSetWords.lean

The interval set in 64-bit arithmetic (scheduler/interval_set.rs).

`IntervalSet.lean` computes with natural numbers.  The source computes with
`u64`: two of its sums saturate, and every other sum and difference is
unchecked, so that an overflow is a panic or a wrapped result.  Here each
operation is written once more with the source's own arithmetic; an unchecked
operation that leaves the 64-bit range gives `none`.

On maps whose bounds are words, no operation overflows and each agrees with
its counterpart over the natural numbers (the `_eq` lemmas), at both ends of
the range.  What the operations mean is then what `IntervalSet.lean` proves.

* `interval_set_words`: the meaning of every operation, for every well-formed
  map and all 64-bit bounds.
-/
import KDown.IntervalSet

namespace KDown

/-! ### 64-bit arithmetic -/

/-- An addition that must not overflow. -/
def u64Add (a b : ℕ) : Option ℕ := if a + b ≤ u64Max then some (a + b) else none

/-- A subtraction that must not go below zero. -/
def u64Sub (a b : ℕ) : Option ℕ := if b ≤ a then some (a - b) else none

/-- `u64::saturating_add`. -/
def saturatingAdd (a b : ℕ) : ℕ := min (a + b) u64Max

theorem u64Add_eq {a b : ℕ} (h : a + b ≤ u64Max) : u64Add a b = some (a + b) := if_pos h

theorem u64Sub_eq {a b : ℕ} (h : b ≤ a) : u64Sub a b = some (a - b) := if_pos h

theorem saturatingAdd_eq {a b : ℕ} (h : a + b ≤ u64Max) : saturatingAdd a b = a + b :=
  min_eq_left h

/-- The length of an inclusive range. -/
def rangeLen (r : ByteRange) : Option ℕ := (u64Sub r.2 r.1).bind fun d => u64Add d 1

theorem rangeLen_eq {r : ByteRange} (hord : r.1 ≤ r.2) (hlen : r.2 - r.1 + 1 ≤ u64Max) :
    rangeLen r = some (r.2 - r.1 + 1) := by
  rw [rangeLen, u64Sub_eq hord, Option.bind_some, u64Add_eq hlen]

/-- The sum of the lengths of some ranges, from a first summand on. -/
def sumLens (first : ℕ) (l : List ByteRange) : Option ℕ :=
  l.foldlM (fun sum r => (rangeLen r).bind fun n => u64Add sum n) first

/-- A sum of lengths that fits has no partial sum that does not. -/
theorem sumLens_eq {l : List ByteRange} (hord : ∀ r ∈ l, r.1 ≤ r.2) (first : ℕ)
    (hfit : first + (l.map fun r => r.2 - r.1 + 1).sum ≤ u64Max) :
    sumLens first l = some (first + (l.map fun r => r.2 - r.1 + 1).sum) := by
  induction l generalizing first with
  | nil => rfl
  | cons r l ih =>
    rw [List.map_cons, List.sum_cons] at hfit ⊢
    have hlen := rangeLen_eq (hord r (List.mem_cons_self ..)) (by omega)
    have hrest := ih (fun x hx => hord x (List.mem_cons_of_mem _ hx)) (first + (r.2 - r.1 + 1))
      (by omega)
    rw [sumLens] at hrest
    rw [sumLens, List.foldlM_cons, hlen, Option.bind_some, u64Add_eq (by omega),
      Option.bind_eq_bind, Option.bind_some, hrest, add_assoc]

namespace IntervalSet

/-! ### Insertion -/

/-- Absorb successors while they overlap or touch, with the source's saturating
test. -/
def absorbSuccessors64 : ℕ → SortedMap ℕ ℕ → ByteRange → SortedMap ℕ ℕ × ByteRange
  | 0, m, r => (m, r)
  | fuel + 1, m, (lo, hi) =>
      match (m.range (lo ≤ ·)).head? with
      | some (k, v) =>
          if k ≤ saturatingAdd hi 1 then absorbSuccessors64 fuel (m.erase k) (min lo k, max hi v)
          else (m, (lo, hi))
      | none => (m, (lo, hi))

/-- `insert`. -/
def insert64 (m : SortedMap ℕ ℕ) (start stop : ℕ) : SortedMap ℕ ℕ :=
  if stop < start then m
  else
    -- the test on the predecessor saturates at zero, as subtraction here does
    let p := absorbPredecessor m start stop
    let s := absorbSuccessors64 p.1.length p.1 p.2
    s.1.insert s.2.1 s.2.2

/-- Every stored bound is a 64-bit number. -/
def Words (m : SortedMap ℕ ℕ) : Prop :=
  ∀ k v, m.get? k = some v → k ≤ u64Max ∧ v ≤ u64Max

/-- The representation invariant: ranges in order (the map is sorted), not
empty, neither overlapping nor adjacent, with 64-bit bounds. -/
structure WellFormed (m : SortedMap ℕ ℕ) : Prop where
  canonical : Canonical m
  words : Words m

theorem Words.erase {m : SortedMap ℕ ℕ} (hw : Words m) (k : ℕ) : Words (m.erase k) := by
  intro a v h
  rw [SortedMap.get?_erase] at h
  split_ifs at h
  exact hw a v h

/-- In a canonical map the covered bytes bound the stored ends. -/
theorem words_of_covered {m : SortedMap ℕ ℕ} (hm : Canonical m)
    (h : ∀ b, Covered m b → b ≤ u64Max) : Words m := by
  intro k v hget
  have hkv := hm.nonempty hget
  have hv := h v ⟨k, v, hget, hkv, le_rfl⟩
  exact ⟨hkv.trans hv, hv⟩

theorem Words.covered_le {m : SortedMap ℕ ℕ} (hw : Words m) {b : ℕ} (h : Covered m b) :
    b ≤ u64Max := by
  obtain ⟨k, v, hget, -, hb⟩ := h
  exact hb.trans (hw k v hget).2

/-- A stored key passes the saturating test exactly when it passes the exact
one. -/
theorem absorbSuccessors64_eq (fuel : ℕ) {m : SortedMap ℕ ℕ} (hw : Words m) (r : ByteRange) :
    absorbSuccessors64 fuel m r = absorbSuccessors fuel m r := by
  induction fuel generalizing m r with
  | zero => rfl
  | succ fuel ih =>
    obtain ⟨lo, hi⟩ := r
    unfold absorbSuccessors64 absorbSuccessors
    rcases e : (m.range (lo ≤ ·)).head? with - | ⟨k, v⟩
    · rfl
    · obtain ⟨hget, -, -⟩ := SortedMap.head?_range_eq_some e
      have hk := (hw k v hget).1
      have hiff : k ≤ saturatingAdd hi 1 ↔ k ≤ hi + 1 := by
        rw [saturatingAdd, le_min_iff]
        exact and_iff_left hk
      simp only [hiff, ih (hw.erase k)]

theorem absorbPredecessor_words {m : SortedMap ℕ ℕ} (hw : Words m) (start stop : ℕ) :
    Words (absorbPredecessor m start stop).1 := by
  unfold absorbPredecessor
  rcases (m.range (· ≤ start)).getLast? with - | ⟨k, v⟩
  · exact hw
  · simp only
    split_ifs
    · exact hw.erase k
    · exact hw

theorem insert64_eq {m : SortedMap ℕ ℕ} (hw : Words m) (start stop : ℕ) :
    insert64 m start stop = insertRange m start stop := by
  simp only [insert64, insertRange, absorbSuccessors64_eq _ (absorbPredecessor_words hw start stop)]

/-- **`insert` in words** adds the bytes of its range. -/
theorem insert64_spec {m : SortedMap ℕ ℕ} (hm : WellFormed m) {start stop : ℕ}
    (hstop : stop ≤ u64Max) :
    WellFormed (insert64 m start stop) ∧
      ∀ b, Covered (insert64 m start stop) b ↔ Covered m b ∨ start ≤ b ∧ b ≤ stop := by
  rw [insert64_eq hm.words]
  obtain ⟨hcanon, hcov⟩ := insertRange_spec hm.canonical start stop
  refine ⟨⟨hcanon, words_of_covered hcanon fun b hb => ?_⟩, hcov⟩
  rcases (hcov b).mp hb with hb | ⟨-, hb⟩
  · exact hm.words.covered_le hb
  · exact hb.trans hstop

/-! ### Subtraction -/

/-- Replace one stored range by what is left of it. -/
def cutEntry64 (start stop : ℕ) (m : SortedMap ℕ ℕ) (e : ByteRange) : Option (SortedMap ℕ ℕ) :=
  let left :=
    if e.1 < start then (u64Sub start 1).map ((m.erase e.1).insert e.1) else some (m.erase e.1)
  left.bind fun m =>
    if stop < e.2 then (u64Add stop 1).map fun lo => m.insert lo e.2 else some m

/-- `subtract`. -/
def subtract64 (m : SortedMap ℕ ℕ) (start stop : ℕ) : Option (SortedMap ℕ ℕ) :=
  if stop < start then some m
  else (entriesToSplit m start stop).foldlM (cutEntry64 start stop) m

/-- `start - 1` is taken below `start` only, and `end + 1` below a stored end. -/
theorem cutEntry64_eq {start stop : ℕ} (m : SortedMap ℕ ℕ) {e : ByteRange} (he : e.2 ≤ u64Max) :
    cutEntry64 start stop m e = some (cutEntry start stop m e) := by
  have hleft : (if e.1 < start then (u64Sub start 1).map ((m.erase e.1).insert e.1)
      else some (m.erase e.1)) =
      some (if e.1 < start then (m.erase e.1).insert e.1 (start - 1) else m.erase e.1) := by
    split_ifs with h
    · rw [u64Sub_eq (by omega), Option.map_some]
    · rfl
  rw [cutEntry64, hleft, Option.bind_some, cutEntry]
  by_cases h : stop < e.2
  · rw [if_pos h, if_pos h, u64Add_eq (by omega), Option.map_some]
  · rw [if_neg h, if_neg h]

theorem foldlM_cutEntry64_eq (start stop : ℕ) (l : List ByteRange) (m : SortedMap ℕ ℕ)
    (hl : ∀ e ∈ l, e.2 ≤ u64Max) :
    l.foldlM (cutEntry64 start stop) m = some (l.foldl (cutEntry start stop) m) := by
  induction l generalizing m with
  | nil => rfl
  | cons e l ih =>
    rw [List.foldlM_cons, cutEntry64_eq m (hl e (List.mem_cons_self ..)), Option.bind_eq_bind,
      Option.bind_some, ih _ fun x hx => hl x (List.mem_cons_of_mem _ hx), List.foldl_cons]

theorem subtract64_eq {m : SortedMap ℕ ℕ} (hm : WellFormed m) (start stop : ℕ) :
    subtract64 m start stop = some (subtractRange m start stop) := by
  unfold subtract64 subtractRange
  split_ifs with hord
  · rfl
  · refine foldlM_cutEntry64_eq start stop _ m fun e he => ?_
    have hget := ((mem_entriesToSplit hm.canonical (not_lt.mp hord) e.1 e.2).mp he).1
    exact (hm.words _ _ hget).2

/-- **`subtract` in words** does not overflow, and takes away the bytes of its
range. -/
theorem subtract64_spec {m : SortedMap ℕ ℕ} (hm : WellFormed m) (start stop : ℕ) :
    ∃ m', subtract64 m start stop = some m' ∧ WellFormed m' ∧
      ∀ b, Covered m' b ↔ Covered m b ∧ ¬ (start ≤ b ∧ b ≤ stop) := by
  obtain ⟨hcanon, hcov⟩ := subtractRange_spec hm.canonical start stop
  refine ⟨_, subtract64_eq hm start stop, ⟨hcanon, words_of_covered hcanon fun b hb => ?_⟩, hcov⟩
  exact hm.words.covered_le ((hcov b).mp hb).1

/-! ### Queries -/

/-- `contains`. -/
def containsOffset (m : SortedMap ℕ ℕ) (offset : ℕ) : Bool :=
  match (m.range (· ≤ offset)).getLast? with
  | some (k, v) => k ≤ offset && offset ≤ v
  | none => false

/-- `first_gap_from`; the outer option is the overflow. -/
def firstGapFrom64 (m : SortedMap ℕ ℕ) (start limit : ℕ) : Option (Option ℕ) :=
  if limit < start then some none
  else if containsOffset m start then
    match (m.range (· ≤ start)).getLast? with
    | some (_, v) => if limit ≤ v then some none else (u64Add v 1).map some
    | none => some none
  else some (some start)

/-- `len`. -/
def len64 (m : SortedMap ℕ ℕ) : Option ℕ := sumLens 0 m.entries

/-- `covers`. -/
def covers64 (m : SortedMap ℕ ℕ) (total : ℕ) : Option Bool :=
  if total = 0 then some true else (len64 m).map fun n => decide (n = total)

/-- `union`. -/
def union64 (m other : SortedMap ℕ ℕ) : SortedMap ℕ ℕ :=
  other.entries.foldl (fun m r => insert64 m r.1 r.2) m

/-- The gaps before, between and after the listed ranges, from `next` on. -/
def complementFrom64 (total : ℕ) : ℕ → List ByteRange → Option (List ByteRange)
  | next, [] => if next < total then (u64Sub total 1).map fun e => [(next, e)] else some []
  | next, (k, v) :: rest =>
      if next < k then
        (u64Sub k 1).bind fun e =>
          (complementFrom64 total (saturatingAdd v 1) rest).map ((next, e) :: ·)
      else complementFrom64 total (saturatingAdd v 1) rest

/-- `complement_within`. -/
def complementWithin64 (m : SortedMap ℕ ℕ) (total : ℕ) : Option (List ByteRange) :=
  complementFrom64 total 0 m.entries

/-- What the first gap of a window is. -/
def FirstGap (m : SortedMap ℕ ℕ) (start limit : ℕ) : Option ℕ → Prop
  | some g => IsLeast {b | (start ≤ b ∧ b ≤ limit) ∧ ¬ Covered m b} g
  | none => ∀ b, start ≤ b → b ≤ limit → Covered m b

/-- `v + 1` is taken below the limit only. -/
theorem firstGapFrom64_eq (s : IntervalSet) (start : ℕ) {limit : ℕ} (hlimit : limit ≤ u64Max) :
    firstGapFrom64 s.map start limit = some (s.firstGapFrom start limit) := by
  have hcon : containsOffset s.map start = s.contains start := rfl
  unfold firstGapFrom64 firstGapFrom
  rw [hcon]
  split_ifs with hlim hin
  · rfl
  · rcases (s.map.range (· ≤ start)).getLast? with - | ⟨k, v⟩
    · rfl
    · simp only
      split_ifs with hv
      · rfl
      · rw [u64Add_eq (by omega), Option.map_some]
  · rfl

theorem firstGapFrom_le {s : IntervalSet} {start limit g : ℕ}
    (h : s.firstGapFrom start limit = some g) : g ≤ limit := by
  unfold firstGapFrom at h
  split_ifs at h with hlim hin
  · rcases e : (s.map.range (· ≤ start)).getLast? with - | ⟨k, v⟩ <;> rw [e] at h
    · cases h
    · simp only at h
      split_ifs at h with hv
      cases h
      omega
  · cases h
    omega

/-- **`first_gap_from` in words** does not overflow, and finds the first gap. -/
theorem firstGapFrom64_spec {m : SortedMap ℕ ℕ} (hm : WellFormed m) (start : ℕ) {limit : ℕ}
    (hlimit : limit ≤ u64Max) :
    ∃ r, firstGapFrom64 m start limit = some r ∧ FirstGap m start limit r := by
  let s : IntervalSet := ⟨m, hm.canonical⟩
  refine ⟨_, firstGapFrom64_eq s start hlimit, ?_⟩
  rcases e : s.firstGapFrom start limit with - | g
  · intro b hb hb'
    exact mem_of_firstGapFrom_none e ⟨hb, hb'⟩
  · obtain ⟨hg, hout⟩ := not_mem_firstGapFrom e
    refine ⟨⟨⟨hg, firstGapFrom_le e⟩, hout⟩, fun b hb => ?_⟩
    -- a smaller gap would be covered
    by_contra hlt
    exact hb.2 (mem_of_firstGapFrom e ⟨hb.1.1, not_le.mp hlt⟩)

/-- Ranges are inserted one by one, each with 64-bit bounds. -/
theorem foldl_insert64_spec (l : List ByteRange) {m : SortedMap ℕ ℕ} (hm : WellFormed m)
    (hl : ∀ r ∈ l, r.2 ≤ u64Max) :
    WellFormed (l.foldl (fun m r => insert64 m r.1 r.2) m) ∧
      ∀ b, Covered (l.foldl (fun m r => insert64 m r.1 r.2) m) b ↔
        Covered m b ∨ InRanges l b := by
  induction l generalizing m with
  | nil => exact ⟨hm, fun b => by simp [InRanges]⟩
  | cons r l ih =>
    have hinsert : WellFormed (insert64 m r.1 r.2) ∧
        ∀ b, Covered (insert64 m r.1 r.2) b ↔ Covered m b ∨ r.1 ≤ b ∧ b ≤ r.2 :=
      insert64_spec hm (hl r List.mem_cons_self)
    obtain ⟨hm', hcov⟩ := hinsert
    obtain ⟨hwf, hall⟩ := ih hm' fun x hx => hl x (List.mem_cons_of_mem _ hx)
    refine ⟨hwf, fun b => (hall b).trans ?_⟩
    rw [hcov, or_assoc, InRanges, InRanges, List.exists_mem_cons_iff]

/-- **`union` in words** has the bytes of both sets. -/
theorem union64_spec {m other : SortedMap ℕ ℕ} (hm : WellFormed m) (ho : WellFormed other) :
    WellFormed (union64 m other) ∧
      ∀ b, Covered (union64 m other) b ↔ Covered m b ∨ Covered other b := by
  obtain ⟨hwf, hcov⟩ := foldl_insert64_spec other.entries hm fun r hr =>
    (ho.words _ _ (SortedMap.mem_entries.mp hr)).2
  refine ⟨hwf, fun b => (hcov b).trans (or_congr_right ?_)⟩
  exact (mem_iff_ranges (s := ⟨other, ho.canonical⟩)).symm

/-! ### Complement and size inside a domain -/

section Domain

variable {m : SortedMap ℕ ℕ} (hm : WellFormed m) {total : ℕ} (htotal : total ≤ u64Max)
  (hin : ∀ b, Covered m b → b < total)

include hm hin in
theorem entries_bound : ∀ r ∈ m.entries, r.1 ≤ r.2 ∧ r.2 < total := by
  intro r hr
  have hget := SortedMap.mem_entries.mp hr
  have hord := hm.canonical.nonempty hget
  exact ⟨hord, hin r.2 ⟨r.1, r.2, hget, hord, le_rfl⟩⟩

include htotal in
/-- Below the total, `v + 1` does not saturate and nothing overflows. -/
theorem complementFrom64_eq {l : List ByteRange} (hl : ∀ r ∈ l, r.1 ≤ r.2 ∧ r.2 < total)
    (next : ℕ) : complementFrom64 total next l = some (complementFrom total next l) := by
  induction l generalizing next with
  | nil =>
    unfold complementFrom64 complementFrom
    split_ifs with h
    · rw [u64Sub_eq (by omega), Option.map_some]
    · rfl
  | cons r l ih =>
    obtain ⟨k, v⟩ := r
    have hv := (hl _ (List.mem_cons_self ..)).2
    simp only at hv
    unfold complementFrom64 complementFrom
    rw [saturatingAdd_eq (by omega), ih fun x hx => hl x (List.mem_cons_of_mem _ hx)]
    split_ifs with h
    · rw [u64Sub_eq (by omega), Option.bind_some, Option.map_some]
    · rfl

/-- The gaps are in order, and a stored range lies between any two. -/
theorem normalRanges_complementFrom {l : List ByteRange}
    (hl : l.Pairwise fun a b => a.2 + 1 < b.1) (hord : ∀ r ∈ l, r.1 ≤ r.2) (next : ℕ)
    (hnext : ∀ r ∈ l, next ≤ r.1) :
    NormalRanges (complementFrom total next l) ∧
      ∀ r ∈ complementFrom total next l, next ≤ r.1 := by
  induction l generalizing next with
  | nil =>
    unfold complementFrom
    split_ifs with h
    · refine ⟨⟨List.pairwise_singleton _ _, ?_⟩, ?_⟩
      · intro r hr
        rw [List.mem_singleton] at hr
        subst hr
        simp only
        omega
      · intro r hr
        rw [List.mem_singleton] at hr
        subst hr
        exact le_rfl
    · exact ⟨⟨.nil, fun r hr => by cases hr⟩, fun r hr => by cases hr⟩
  | cons r l ih =>
    obtain ⟨k, v⟩ := r
    have hkv := hord _ (List.mem_cons_self ..)
    have hnk := hnext _ (List.mem_cons_self ..)
    simp only at hkv hnk
    obtain ⟨hfar, hl⟩ := List.pairwise_cons.mp hl
    obtain ⟨⟨hapart, hords⟩, hlow⟩ := ih hl
      (fun x hx => hord x (List.mem_cons_of_mem _ hx)) (v + 1) fun x hx => (hfar x hx).le
    unfold complementFrom
    split_ifs with h
    · refine ⟨⟨List.pairwise_cons.mpr ⟨fun x hx => ?_, hapart⟩, ?_⟩, ?_⟩
      · have := hlow x hx
        simp only
        omega
      · intro x hx
        rcases List.mem_cons.mp hx with rfl | hx
        · simp only
          omega
        · exact hords x hx
      · intro x hx
        rcases List.mem_cons.mp hx with rfl | hx
        · exact le_rfl
        · have := hlow x hx
          omega
    · refine ⟨⟨hapart, hords⟩, fun x hx => ?_⟩
      have := hlow x hx
      omega

include hm htotal hin in
/-- **`complement_within` in words** does not overflow, and has the bytes the
set lacks. -/
theorem complementWithin64_spec :
    ∃ gaps, complementWithin64 m total = some gaps ∧ NormalRanges gaps ∧
      ∀ b, InRanges gaps b ↔ b < total ∧ ¬ Covered m b := by
  let s : IntervalSet := ⟨m, hm.canonical⟩
  have hbound := entries_bound hm hin
  refine ⟨_, complementFrom64_eq htotal hbound 0, ?_, fun b => mem_complementWithin (s := s) hin b⟩
  exact (normalRanges_complementFrom s.pairwise_ranges (fun r hr => (hbound r hr).1) 0
    fun r _ => Nat.zero_le _).1

include hm htotal hin in
/-- The lengths add up to at most the total, so no partial sum overflows. -/
theorem len64_eq : len64 m = some (IntervalSet.len ⟨m, hm.canonical⟩) := by
  let s : IntervalSet := ⟨m, hm.canonical⟩
  have hbound := entries_bound hm hin
  have hle : (m.entries.map fun r => r.2 - r.1 + 1).sum ≤ total - 0 :=
    (sum_length_le s.pairwise_ranges hbound 0 fun r _ => Nat.zero_le _).1
  have hfit : 0 + (m.entries.map fun r => r.2 - r.1 + 1).sum ≤ u64Max := by
    rw [zero_add]
    exact hle.trans htotal
  rw [len64, sumLens_eq (fun r hr => (hbound r hr).1) 0 hfit, zero_add]
  rfl

include hm htotal hin in
/-- **`covers` in words** does not overflow, and says whether the set lacks a
byte. -/
theorem covers64_spec :
    ∃ c, covers64 m total = some c ∧ (c = true ↔ ∀ b, b < total → Covered m b) := by
  let s : IntervalSet := ⟨m, hm.canonical⟩
  rw [covers64]
  split_ifs with hzero
  · exact ⟨true, rfl, fun _ b hb => absurd hb (by omega), fun _ => rfl⟩
  · refine ⟨_, by rw [len64_eq hm htotal hin, Option.map_some], ?_⟩
    rw [decide_eq_true_iff]
    constructor
    · intro hlen b hb
      exact mem_of_len_eq (s := s) hin hlen hb
    · intro hall
      -- the covered bytes are then the whole domain
      have hset : s.toFinset = Finset.range total := by
        ext b
        rw [mem_toFinset, Finset.mem_range]
        exact ⟨hin b, hall b⟩
      rw [← card_toFinset s, hset, Finset.card_range]

end Domain

/-! ### The meaning of the operations -/

/-- **The interval set over 64-bit words.**  Insertion, subtraction and union
are those of sets of integers and keep the representation; the first gap is the
least byte of the window that is not covered; inside a domain, the complement
is well formed and exact, the length is the number of bytes and the coverage
test is right.  Nothing overflows. -/
theorem interval_set_words {m : SortedMap ℕ ℕ} (hm : WellFormed m) :
    (∀ start stop, start ≤ u64Max → stop ≤ u64Max →
      (WellFormed (insert64 m start stop) ∧
        ∀ b, Covered (insert64 m start stop) b ↔ Covered m b ∨ start ≤ b ∧ b ≤ stop) ∧
      ∃ m', subtract64 m start stop = some m' ∧ WellFormed m' ∧
        ∀ b, Covered m' b ↔ Covered m b ∧ ¬ (start ≤ b ∧ b ≤ stop)) ∧
    (∀ other, WellFormed other → WellFormed (union64 m other) ∧
      ∀ b, Covered (union64 m other) b ↔ Covered m b ∨ Covered other b) ∧
    (∀ start limit, start ≤ u64Max → limit ≤ u64Max →
      ∃ r, firstGapFrom64 m start limit = some r ∧ FirstGap m start limit r) ∧
    ∀ total, total ≤ u64Max → (∀ b, Covered m b → b < total) →
      (∃ gaps, complementWithin64 m total = some gaps ∧ NormalRanges gaps ∧
        ∀ b, InRanges gaps b ↔ b < total ∧ ¬ Covered m b) ∧
      (∃ bytes : Finset ℕ, (∀ b, b ∈ bytes ↔ Covered m b) ∧ len64 m = some bytes.card) ∧
      ∃ c, covers64 m total = some c ∧ (c = true ↔ ∀ b, b < total → Covered m b) := by
  refine ⟨fun start stop _ hstop => ?_, fun other ho => union64_spec hm ho,
    fun start limit _ hlimit => firstGapFrom64_spec hm start hlimit, fun total htotal hin => ?_⟩
  · exact ⟨insert64_spec hm hstop, subtract64_spec hm start stop⟩
  · let s : IntervalSet := ⟨m, hm.canonical⟩
    refine ⟨complementWithin64_spec hm htotal hin, ⟨s.toFinset, fun b => mem_toFinset, ?_⟩,
      covers64_spec hm htotal hin⟩
    rw [card_toFinset]
    exact len64_eq hm htotal hin

/-- The map that holds the two ends of the 64-bit range. -/
theorem interval_set_words_ends :
    WellFormed (fromRanges [(0, 0), (u64Max, u64Max)]).map ∧
      ∃ m', subtract64 (fromRanges [(0, 0), (u64Max, u64Max)]).map u64Max u64Max = some m' ∧
        WellFormed m' ∧ ∀ b, Covered m' b ↔
          Covered (fromRanges [(0, 0), (u64Max, u64Max)]).map b ∧ ¬ (u64Max ≤ b ∧ b ≤ u64Max) := by
  have hm : WellFormed (fromRanges [(0, 0), (u64Max, u64Max)]).map := by
    refine ⟨IntervalSet.canonical _, words_of_covered (IntervalSet.canonical _) fun b hb => ?_⟩
    obtain ⟨r, hr, hrb⟩ := mem_fromRanges.mp hb
    rcases List.mem_cons.mp hr with rfl | hr
    · exact hrb.2.trans (Nat.zero_le _)
    · rw [List.mem_singleton] at hr
      subst hr
      exact hrb.2
  exact ⟨hm, ((interval_set_words hm).1 u64Max u64Max le_rfl le_rfl).2⟩

end IntervalSet

end KDown
