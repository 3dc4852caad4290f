/-
KDown/RangeNormalizers.lean

The three range normalizers (scheduler/interval_set.rs, resume/checkpoint.rs,
resume/coordinated_store.rs).

The scheduler inserts a range into a map, a checkpoint appends it to its list,
sorts and merges, and the coordinating store sorts and merges two lists at
once.  The two merge loops are the same loop, here with the source's saturating
adjacency test; each function keeps its own name.

None of them is compared with another directly.  Each result is in normal form
and covers the bytes of the input (`foldl_insert64_spec`,
`foldl_recordCompleted_spec`, `unionRanges64_spec`), and a list in normal form
is the list of the maximal runs of the bytes it covers
(`NormalRanges.mem_iff_maximalRun`), so there is only one.

* `range_normalizers_agree`: the three agree on every list of valid ranges.
-/
import KDown.CoordinatedRuns
import KDown.IntervalSetWords

namespace KDown

namespace IntervalSet

/-! ### Maximal runs -/

/-- The range `r` is a maximal run of the bytes in `S`: it lies inside, and no
byte next to it does. -/
structure MaximalRun (S : ℕ → Prop) (r : ByteRange) : Prop where
  ordered : r.1 ≤ r.2
  inside : ∀ b, r.1 ≤ b → b ≤ r.2 → S b
  left : ∀ b, b + 1 = r.1 → ¬ S b
  right : ¬ S (r.2 + 1)

/-- Two maximal runs that share a byte are the same. -/
theorem MaximalRun.eq_of_mem {S : ℕ → Prop} {r r' : ByteRange} (h : MaximalRun S r)
    (h' : MaximalRun S r') {b : ℕ} (hb : r.1 ≤ b ∧ b ≤ r.2) (hb' : r'.1 ≤ b ∧ b ≤ r'.2) :
    r = r' := by
  -- a run that starts earlier covers the byte before the other
  have hstart : ∀ {x y : ByteRange}, MaximalRun S x → MaximalRun S y →
      x.1 ≤ b ∧ b ≤ x.2 → y.1 ≤ b ∧ b ≤ y.2 → x.1 ≤ y.1 := by
    intro x y hx hy hbx hby
    by_contra hlt
    have hout : ¬ S (x.1 - 1) := hx.left (x.1 - 1) (by omega)
    exact hout (hy.inside _ (by omega) (by omega))
  have hend : ∀ {x y : ByteRange}, MaximalRun S x → MaximalRun S y →
      x.1 ≤ b ∧ b ≤ x.2 → y.1 ≤ b ∧ b ≤ y.2 → y.2 ≤ x.2 := by
    intro x y hx hy hbx hby
    by_contra hlt
    exact hx.right (hy.inside _ (by omega) (by omega))
  have h₁ : r.1 = r'.1 := le_antisymm (hstart h h' hb hb') (hstart h' h hb' hb)
  have h₂ : r.2 = r'.2 := le_antisymm (hend h' h hb' hb) (hend h h' hb hb')
  exact Prod.ext h₁ h₂

/-- A range of a normal list cannot be made longer. -/
theorem NormalRanges.maximalRun {l : List ByteRange} (h : NormalRanges l) {r : ByteRange}
    (hr : r ∈ l) : MaximalRun (InRanges l) r := by
  have hord := h.ordered r hr
  -- another range of the list lies on one side, at a distance
  have hfar : ∀ x ∈ l, x = r ∨ x.2 + 1 < r.1 ∨ r.2 + 1 < x.1 := by
    intro x hx
    by_cases hxr : x = r
    · exact .inl hxr
    · let sides : ByteRange → ByteRange → Prop := fun a b => a.2 + 1 < b.1 ∨ b.2 + 1 < a.1
      have hsymm : Std.Symm sides := ⟨fun _ _ => Or.symm⟩
      have hsides : l.Pairwise sides := h.apart.imp Or.inl
      exact .inr (hsides.forall hx hr hxr)
  refine ⟨hord, fun b h₁ h₂ => ⟨r, hr, h₁, h₂⟩, ?_, ?_⟩
  · rintro b hb ⟨x, hx, hbx⟩
    have := h.ordered x hx
    rcases hfar x hx with rfl | hside | hside <;> omega
  · rintro ⟨x, hx, hbx⟩
    rcases hfar x hx with rfl | hside | hside <;> omega

/-- **The ranges of a normal list are the maximal runs of the bytes it covers.** -/
theorem NormalRanges.mem_iff_maximalRun {l : List ByteRange} (h : NormalRanges l)
    (r : ByteRange) : r ∈ l ↔ MaximalRun (InRanges l) r := by
  constructor
  · exact h.maximalRun
  · intro hr
    -- the first byte of the run lies in a range of the list
    obtain ⟨x, hx, hbx⟩ := hr.inside r.1 le_rfl hr.ordered
    rw [hr.eq_of_mem (h.maximalRun hx) ⟨le_rfl, hr.ordered⟩ hbx]
    exact hx

end IntervalSet

open IntervalSet (NormalRanges InRanges MaximalRun insert64)

/-! ### The merge loops in 64-bit arithmetic -/

/-- Merge a range into the last one if it overlaps or touches; the list is kept
last range first. -/
def mergeRange64 : List ByteRange → ByteRange → List ByteRange
  | [], r => [r]
  | (ps, pe) :: merged, (start, stop) =>
      if start ≤ saturatingAdd pe 1 then (ps, max pe stop) :: merged
      else (start, stop) :: (ps, pe) :: merged

/-- Sort, then merge from left to right. -/
def sortAndMerge (ranges : List ByteRange) : List ByteRange :=
  ((ranges.insertionSort rangeLe).foldl mergeRange64 []).reverse

/-- `union_ranges`. -/
def unionRanges64 (a b : List ByteRange) : List ByteRange := sortAndMerge (a ++ b)

/-- `record_completed`; `now` is the clock's answer. -/
def Checkpoint.recordCompleted (cp : Checkpoint) (now : String) (start stop : ℕ) : Checkpoint :=
  { cp with
    completedRanges := sortAndMerge (cp.completedRanges ++ [(start, stop)])
    updatedAt := now }

/-- Valid 64-bit ranges. -/
def ValidRanges (l : List ByteRange) : Prop := ∀ r ∈ l, r.1 ≤ r.2 ∧ r.2 ≤ u64Max

theorem ValidRanges.append {a b : List ByteRange} (ha : ValidRanges a) (hb : ValidRanges b) :
    ValidRanges (a ++ b) := by
  intro r hr
  exact (List.mem_append.mp hr).elim (ha r) (hb r)

/-- A 64-bit start passes the saturating test exactly when it passes the exact
one. -/
theorem mergeRange64_eq (merged : List ByteRange) {r : ByteRange} (hr : r.1 ≤ u64Max) :
    mergeRange64 merged r = mergeRange merged r := by
  obtain ⟨start, stop⟩ := r
  rcases merged with - | ⟨⟨ps, pe⟩, merged⟩
  · rfl
  · have hiff : start ≤ saturatingAdd pe 1 ↔ start ≤ pe + 1 := by
      rw [saturatingAdd, le_min_iff]
      exact and_iff_left hr
    simp only [mergeRange64, mergeRange, hiff]

theorem foldl_mergeRange64_eq {l : List ByteRange} (hl : ∀ r ∈ l, r.1 ≤ u64Max)
    (merged : List ByteRange) : l.foldl mergeRange64 merged = l.foldl mergeRange merged := by
  induction l generalizing merged with
  | nil => rfl
  | cons r l ih =>
    rw [List.foldl_cons, List.foldl_cons, mergeRange64_eq _ (hl r List.mem_cons_self),
      ih fun x hx => hl x (List.mem_cons_of_mem _ hx)]

/-- On 64-bit ranges the saturating union is the exact one. -/
theorem unionRanges64_eq {a b : List ByteRange} (ha : ValidRanges a) (hb : ValidRanges b) :
    unionRanges64 a b = unionRanges a b := by
  have hwords : ∀ r ∈ (a ++ b).insertionSort rangeLe, r.1 ≤ u64Max := by
    intro r hr
    obtain ⟨hord, hmax⟩ := ha.append hb r ((List.mem_insertionSort rangeLe).mp hr)
    exact hord.trans hmax
  rw [unionRanges64, sortAndMerge, foldl_mergeRange64_eq hwords, unionRanges]

theorem inRanges_append (a b : List ByteRange) (x : ℕ) :
    InRanges (a ++ b) x ↔ InRanges a x ∨ InRanges b x := by
  simp only [InRanges, List.mem_append, or_and_right, exists_or]

/-- Bytes of valid ranges are 64-bit offsets, so a normal list that covers
nothing else is valid. -/
theorem validRanges_of_inRanges {l l' : List ByteRange} (hl : ValidRanges l)
    (hn : NormalRanges l') (h : ∀ b, InRanges l' b ↔ InRanges l b) : ValidRanges l' := by
  intro r hr
  have hord := hn.ordered r hr
  obtain ⟨x, hx, -, hb⟩ := (h r.2).mp ⟨r, hr, hord, le_rfl⟩
  exact ⟨hord, hb.trans (hl x hx).2⟩

/-! ### What each normalizer computes -/

/-- `l'` is the normal form of `l`: the list of its maximal runs. -/
structure NormalForm (l l' : List ByteRange) : Prop where
  normal : NormalRanges l'
  bytes : ∀ b, InRanges l' b ↔ InRanges l b

theorem NormalForm.unique {l a b : List ByteRange} (ha : NormalForm l a) (hb : NormalForm l b) :
    a = b :=
  ha.normal.eq_of_inRanges hb.normal fun x => (ha.bytes x).trans (hb.bytes x).symm

theorem normalForm_nil : NormalForm [] [] :=
  ⟨⟨List.Pairwise.nil, fun r hr => by cases hr⟩, fun _ => Iff.rfl⟩

/-- **The union of two lists of ranges** is the normal list of their bytes. -/
theorem unionRanges64_spec {a b : List ByteRange} (ha : ValidRanges a) (hb : ValidRanges b) :
    NormalForm (a ++ b) (unionRanges64 a b) := by
  rw [unionRanges64_eq ha hb]
  obtain ⟨hn, hin⟩ := unionRanges_spec (fun r hr => (ha r hr).1) fun r hr => (hb r hr).1
  exact ⟨hn, fun x => (hin x).trans (inRanges_append a b x).symm⟩

/-- Normalizing one more range into a normal form. -/
theorem NormalForm.union {l l' m : List ByteRange} (h : NormalForm l l') (hl : ValidRanges l)
    (hm : ValidRanges m) : NormalForm (l ++ m) (unionRanges64 l' m) := by
  have hspec := unionRanges64_spec (validRanges_of_inRanges hl h.normal h.bytes) hm
  refine ⟨hspec.normal, fun b => ?_⟩
  rw [hspec.bytes, inRanges_append, inRanges_append, h.bytes]

/-- The scheduler's side: insertions into the empty map. -/
theorem foldl_insert64_normalForm {ranges : List ByteRange} (hvalid : ValidRanges ranges) :
    NormalForm ranges (ranges.foldl (fun m r => insert64 m r.1 r.2) SortedMap.empty).entries := by
  have hempty : IntervalSet.WellFormed SortedMap.empty :=
    ⟨IntervalSet.canonical_empty, fun k v h => by simp at h⟩
  obtain ⟨hwf, hcov⟩ :=
    IntervalSet.foldl_insert64_spec ranges hempty fun r hr => (hvalid r hr).2
  let s : IntervalSet := ⟨_, hwf.canonical⟩
  refine ⟨s.normalRanges_ranges, fun b => ?_⟩
  have hmem : InRanges s.ranges b ↔ IntervalSet.Covered s.map b := IntervalSet.mem_iff_ranges.symm
  refine hmem.trans ((hcov b).trans (or_iff_right ?_))
  rintro ⟨k, v, hget, -⟩
  simp at hget

/-- The checkpoint's side: one more recorded range keeps the list the normal
form of everything recorded so far. -/
theorem foldl_recordCompleted_normalForm (calls : List (ByteRange × String))
    {seen : List ByteRange} (hseen : ValidRanges seen)
    (hcalls : ValidRanges (calls.map Prod.fst)) {cp : Checkpoint}
    (h : NormalForm seen cp.completedRanges) :
    NormalForm (seen ++ calls.map Prod.fst)
      (calls.foldl (fun cp c => cp.recordCompleted c.2 c.1.1 c.1.2) cp).completedRanges := by
  -- induction on the calls; `seen` are the ranges of the calls made
  induction calls generalizing seen cp with
  | nil => simpa using h
  | cons c calls ih =>
    have hc : ValidRanges [c.1] := by
      intro r hr
      rw [List.mem_singleton.mp hr]
      exact hcalls c.1 List.mem_cons_self
    have hrest : ValidRanges (calls.map Prod.fst) :=
      fun r hr => hcalls r (List.mem_cons_of_mem _ hr)
    have hstep : NormalForm (seen ++ [c.1])
        (cp.recordCompleted c.2 c.1.1 c.1.2).completedRanges := h.union hseen hc
    have hall := ih (hseen.append hc) hrest hstep
    rw [List.append_assoc] at hall
    exact hall

/-- The store's side, folded range by range. -/
theorem foldl_unionRanges64_normalForm (ranges : List ByteRange) {seen acc : List ByteRange}
    (hseen : ValidRanges seen) (hvalid : ValidRanges ranges) (h : NormalForm seen acc) :
    NormalForm (seen ++ ranges) (ranges.foldl (fun acc r => unionRanges64 acc [r]) acc) := by
  induction ranges generalizing seen acc with
  | nil => simpa using h
  | cons r ranges ih =>
    have hr : ValidRanges [r] := by
      intro x hx
      rw [List.mem_singleton.mp hx]
      exact hvalid r List.mem_cons_self
    have hrest : ValidRanges ranges := fun x hx => hvalid x (List.mem_cons_of_mem _ hx)
    have hall := ih (hseen.append hr) hrest (h.union hseen hr)
    rw [List.append_assoc] at hall
    exact hall

/-- **The three normalizers agree.**  For every list of valid ranges there is
one sorted list, that of the maximal runs of its bytes, and all of them return
it: the map after inserting the ranges, the checkpoint after recording them, the
union of any two lists they can be dealt out to, and the union folded over them. -/
theorem range_normalizers_agree (ranges : List ByteRange)
    (hvalid : ∀ r ∈ ranges, r.1 ≤ r.2 ∧ r.2 ≤ u64Max) :
    ∃ normal : List ByteRange,
      normal.Pairwise (fun a b => a.1 < b.1) ∧
      (∀ r, r ∈ normal ↔ MaximalRun (InRanges ranges) r) ∧
      (ranges.foldl (fun m r => insert64 m r.1 r.2) SortedMap.empty).entries = normal ∧
      (∀ (cp : Checkpoint) (calls : List (ByteRange × String)),
        cp.completedRanges = [] → calls.map Prod.fst = ranges →
        (calls.foldl (fun cp c => cp.recordCompleted c.2 c.1.1 c.1.2) cp).completedRanges =
          normal) ∧
      (∀ a b : List ByteRange, (a ++ b).Perm ranges → unionRanges64 a b = normal) ∧
      ranges.foldl (fun acc r => unionRanges64 acc [r]) [] = normal := by
  have hset := foldl_insert64_normalForm hvalid
  have hnil : ValidRanges [] := fun r hr => by cases hr
  have hbytes : InRanges (ranges.foldl (fun m r => insert64 m r.1 r.2) SortedMap.empty).entries =
      InRanges ranges := funext fun b => propext (hset.bytes b)
  refine ⟨_, ?_, ?_, rfl, ?_, ?_, ?_⟩
  · refine hset.normal.apart.imp_of_mem fun {a b} ha _ hab => ?_
    have := hset.normal.ordered a ha
    omega
  · intro r
    rw [hset.normal.mem_iff_maximalRun r, hbytes]
  · intro cp calls hcp hcalls
    have hstart : NormalForm [] cp.completedRanges := hcp ▸ normalForm_nil
    have hcheckpoint := foldl_recordCompleted_normalForm calls hnil (hcalls ▸ hvalid) hstart
    rw [List.nil_append, hcalls] at hcheckpoint
    exact hcheckpoint.unique hset
  · intro a b hperm
    have hab : ValidRanges (a ++ b) := fun r hr => hvalid r (hperm.mem_iff.mp hr)
    have hunion := unionRanges64_spec (fun r hr => hab r (List.mem_append_left _ hr))
      fun r hr => hab r (List.mem_append_right _ hr)
    refine NormalForm.unique ⟨hunion.normal, fun x => (hunion.bytes x).trans ?_⟩ hset
    simp only [InRanges, hperm.mem_iff]
  · exact (foldl_unionRanges64_normalForm ranges hnil hvalid normalForm_nil).unique hset

/-- A fresh checkpoint. -/
def noRanges : Checkpoint where
  formatVersion := checkpointFormatVersion
  jobId := "job"
  tempPathIdentity := ""
  ownedTempIdentity := none
  coveredDigest := none
  totalSize := none
  validators := ⟨none, false, none, none⟩
  completedRanges := []
  expectedHashes := []
  createdAt := ""
  updatedAt := ""

/-- Four ranges out of order, two of them adjacent, one at the largest offset. -/
theorem range_normalizers_agree_four :
    (([((400, u64Max), "t"), ((0, 99), "t"), ((100, 199), "t"), ((u64Max, u64Max), "t")] :
        List (ByteRange × String)).foldl
      (fun cp c => cp.recordCompleted c.2 c.1.1 c.1.2) noRanges).completedRanges =
      unionRanges64 [(0, 99), (u64Max, u64Max)] [(100, 199), (400, u64Max)] := by
  have h := range_normalizers_agree [(400, u64Max), (0, 99), (100, 199), (u64Max, u64Max)]
    (by decide +kernel)
  obtain ⟨normal, -, -, -, hrecord, hunion, -⟩ := h
  rw [hrecord noRanges _ rfl rfl, hunion _ _ (by decide +kernel)]

end KDown
