/-
KDown/SchedulerCredit.lean

Progress is credited once.

`absorb_worker_progress` returns, per worker cell, the number of bytes by which
the frontier of the cell's lease advanced; `reconcile_and_credit` adds these
numbers to the worker's completed count.  A byte is settled once it is
completed or lies in the acknowledged prefix of an active lease.  No ledger
step unsettles a byte, and the bytes behind a returned delta are exactly those
that the call settles, so no two deltas of a run stand for the same byte,
whatever records the cells hold and however leases are split, failed and
reissued in between.
-/
import KDown.SchedulerPartition

namespace KDown

open Relation

/-! ### Settled bytes -/

namespace Ledger

variable {g g' : Ledger}

/-- The byte lies in the acknowledged prefix of an active lease. -/
def Acknowledged (g : Ledger) (b : ℕ) : Prop :=
  ∃ id l, g.active.get? id = some l ∧ l.start ≤ b ∧ b < l.nextOffset

/-- The byte is completed or acknowledged. -/
def Settled (g : Ledger) (b : ℕ) : Prop := b ∈ g.completed ∨ g.Acknowledged b

/-- **No step unsettles a byte.** -/
theorem Settled.step (hg : g.WellFormed) (h : Step g g') {b : ℕ} (hb : g.Settled b) :
    g'.Settled b := by
  cases h with
  | carve hgap hord hend =>
    rcases hb with hb | ⟨id, l, hget, h₁, h₂⟩
    · exact .inl hb
    · refine .inr ⟨id, l, ?_, h₁, h₂⟩
      rw [Ledger.carve, SortedMap.get?_insert_of_ne _ _ (hg.fresh hget).ne]
      exact hget
  | @advance a lease next hget hnext hend =>
    rcases hb with hb | ⟨id, l, hl, h₁, h₂⟩
    · exact .inl hb
    · by_cases ha : id = a
      · subst ha
        obtain rfl : lease = l := Option.some.inj (hget.symm.trans hl)
        have hle := (hg.bounds hget).next_le
        refine .inr ⟨id, { lease with nextOffset := next }, by simp [Ledger.advance], h₁, ?_⟩
        simp only
        omega
      · refine .inr ⟨id, l, ?_, h₁, h₂⟩
        rw [Ledger.advance, SortedMap.get?_insert_of_ne _ _ ha]
        exact hl
  | @credit a lease hget =>
    rcases hb with hb | ⟨id, l, hl, h₁, h₂⟩
    · exact .inl (IntervalSet.mem_insert.mpr (.inl hb))
    · by_cases ha : id = a
      · subst ha
        obtain rfl : lease = l := Option.some.inj (hget.symm.trans hl)
        have hle := (hg.bounds hget).next_le
        exact .inl (IntervalSet.mem_insert.mpr (.inr ⟨h₁, by omega⟩))
      · refine .inr ⟨id, l, ?_, h₁, h₂⟩
        rw [Ledger.credit, SortedMap.get?_erase_of_ne _ ha]
        exact hl
  | @giveBack a lease hget =>
    rcases hb with hb | ⟨id, l, hl, h₁, h₂⟩
    · left
      simp only [Ledger.giveBack]
      split_ifs
      · exact IntervalSet.mem_insert.mpr (.inl hb)
      · exact hb
    · by_cases ha : id = a
      · -- the acknowledged prefix of the lease is completed
        subst ha
        obtain rfl : lease = l := Option.some.inj (hget.symm.trans hl)
        left
        simp only [Ledger.giveBack]
        rw [if_pos (by omega)]
        exact IntervalSet.mem_insert.mpr (.inr ⟨h₁, by omega⟩)
      · refine .inr ⟨id, l, ?_, h₁, h₂⟩
        rw [Ledger.giveBack, SortedMap.get?_erase_of_ne _ ha]
        exact hl
  | @split a lease newStart hget hlow hend =>
    rcases hb with hb | ⟨id, l, hl, h₁, h₂⟩
    · exact .inl hb
    · have hne : id ≠ g.nextLease := (hg.fresh hl).ne
      by_cases ha : id = a
      · subst ha
        obtain rfl : lease = l := Option.some.inj (hget.symm.trans hl)
        refine .inr ⟨id, { lease with stop := newStart - 1 }, ?_, h₁, h₂⟩
        rw [Ledger.split, SortedMap.get?_insert_of_ne _ _ hne, SortedMap.get?_insert_self]
      · refine .inr ⟨id, l, ?_, h₁, h₂⟩
        rw [Ledger.split, SortedMap.get?_insert_of_ne _ _ hne, SortedMap.get?_insert_of_ne _ _ ha]
        exact hl
  | bump => exact hb

theorem Settled.steps (hg : g.WellFormed) (h : ReflTransGen Step g g') {b : ℕ}
    (hb : g.Settled b) : g'.Settled b := by
  induction h with
  | refl => exact hb
  | tail hsteps hstep ih => exact ih.step (hg.steps hsteps) hstep

/-- Settled bytes lie in the domain. -/
theorem WellFormed.lt_of_settled (hg : g.WellFormed) {b : ℕ} (hb : g.Settled b) :
    b < g.totalSize := by
  rcases hb with hb | ⟨id, l, hget, h₁, h₂⟩
  · exact hg.owned.within .completed b hb
  · have hle := (hg.bounds hget).next_le
    exact hg.owned.within (.lease id) b ⟨l, hget, h₁, by omega⟩

end Ledger

theorem Ledger.Step.generation_le {g g' : Ledger} (h : Ledger.Step g g') :
    g.generation ≤ g'.generation := by
  cases h <;> first | exact le_rfl | exact Nat.le_succ _

theorem Ledger.generation_le_of_steps {g g' : Ledger} (h : ReflTransGen Ledger.Step g g') :
    g.generation ≤ g'.generation := by
  induction h with
  | refl => exact le_rfl
  | tail _ hstep ih => exact ih.trans hstep.generation_le

/-- The settled ranges a checkpoint is made of cover the settled bytes. -/
theorem SegmentScheduler.inRanges_settledRanges {s : SegmentScheduler} {b : ℕ} :
    IntervalSet.InRanges s.settledRanges b ↔ s.ledger.Settled b := by
  have hfold : ∀ (l : List SegmentLease) (set : IntervalSet),
      b ∈ l.foldl (fun set l => if l.start < l.nextOffset
        then set.insert l.start (l.nextOffset - 1) else set) set ↔
      b ∈ set ∨ ∃ x ∈ l, x.start ≤ b ∧ b < x.nextOffset := by
    intro l
    induction l with
    | nil => simp
    | cons x l ih =>
      intro set
      rw [List.foldl_cons, ih, List.exists_mem_cons_iff, ← or_assoc]
      refine or_congr_left ?_
      split_ifs
      · rw [IntervalSet.mem_insert]
        exact or_congr_right (by omega)
      · exact ⟨.inl, fun h => h.resolve_right (by omega)⟩
  rw [IntervalSet.InRanges, SegmentScheduler.settledRanges, ← IntervalSet.mem_iff_ranges, hfold]
  refine or_congr_right ?_
  simp only [SortedMap.values, List.mem_map]
  constructor
  · rintro ⟨l, ⟨⟨id, l⟩, hmem, rfl⟩, hb⟩
    exact ⟨id, l, SortedMap.mem_entries.mp hmem, hb⟩
  · rintro ⟨id, l, hget, hb⟩
    exact ⟨l, ⟨(id, l), SortedMap.mem_entries.mpr hget, rfl⟩, hb⟩

theorem SegmentScheduler.normalRanges_settledRanges (s : SegmentScheduler) :
    IntervalSet.NormalRanges s.settledRanges :=
  IntervalSet.normalRanges_ranges _

/-! ### Bytes settled between two ledgers -/

/-- The sets hold bytes that are settled in the second ledger and not in the
first, and no byte twice. -/
structure Ledger.SettledBetween (g g' : Ledger) (sets : List (Finset ℕ)) : Prop where
  unsettled : ∀ c ∈ sets, ∀ b ∈ c, ¬ g.Settled b
  settled : ∀ c ∈ sets, ∀ b ∈ c, g'.Settled b
  disjoint : sets.Pairwise Disjoint

namespace Ledger.SettledBetween

variable {g g' g'' : Ledger} {sets sets' : List (Finset ℕ)}

theorem nil : SettledBetween g g' [] where
  unsettled := by intro c hc; cases hc
  settled := by intro c hc; cases hc
  disjoint := List.Pairwise.nil

/-- Later sets are disjoint from earlier ones: settling is for good. -/
theorem append (h : SettledBetween g g' sets) (h' : SettledBetween g' g'' sets')
    (hmono : ∀ b, g.Settled b → g'.Settled b) (hmono' : ∀ b, g'.Settled b → g''.Settled b) :
    SettledBetween g g'' (sets ++ sets') := by
  refine ⟨?_, ?_, List.pairwise_append.mpr ⟨h.disjoint, h'.disjoint, ?_⟩⟩
  · intro c hc b hb
    rcases List.mem_append.mp hc with hc | hc
    · exact h.unsettled c hc b hb
    · exact fun hset => h'.unsettled c hc b hb (hmono b hset)
  · intro c hc b hb
    rcases List.mem_append.mp hc with hc | hc
    · exact hmono' b (h.settled c hc b hb)
    · exact h'.settled c hc b hb
  · intro c hc c' hc'
    rw [Finset.disjoint_left]
    intro b hb hb'
    exact h'.unsettled c' hc' b hb' (h.settled c hc b hb)

end Ledger.SettledBetween

/-- Pairwise disjoint subsets of a finite set have at most its size in all. -/
theorem sum_card_le_of_disjoint {α : Type*} [DecidableEq α] {sets : List (Finset α)}
    {t : Finset α} (hdisj : sets.Pairwise Disjoint) (hsub : ∀ c ∈ sets, c ⊆ t) :
    (sets.map Finset.card).sum ≤ t.card := by
  -- take the first set out of the bound
  induction sets generalizing t with
  | nil => exact Nat.zero_le _
  | cons c sets ih =>
    obtain ⟨hc, hrest⟩ := List.pairwise_cons.mp hdisj
    have hct := hsub c (List.mem_cons_self ..)
    have h := ih hrest (t := t \ c) fun c' hc' => Finset.subset_sdiff.mpr
      ⟨hsub c' (List.mem_cons_of_mem _ hc'), (hc c' hc').symm⟩
    have hcard := Finset.card_sdiff_add_card_eq_card hct
    rw [List.map_cons, List.sum_cons]
    omega

/-! ### Deltas and the bytes behind them -/

namespace SegmentScheduler

/-- The bytes of the acknowledged prefixes of the active leases. -/
def acknowledgedBytes (s : SegmentScheduler) : Finset ℕ :=
  s.active.values.toFinset.biUnion fun l => Finset.Ico l.start l.nextOffset

theorem mem_acknowledgedBytes {s : SegmentScheduler} {b : ℕ} :
    b ∈ s.acknowledgedBytes ↔ s.ledger.Acknowledged b := by
  simp only [acknowledgedBytes, SortedMap.values, Finset.mem_biUnion, List.mem_toFinset,
    List.mem_map, Finset.mem_Ico]
  constructor
  · rintro ⟨l, ⟨⟨id, l⟩, hmem, rfl⟩, hb⟩
    exact ⟨id, l, SortedMap.mem_entries.mp hmem, hb⟩
  · rintro ⟨id, l, hget, hb⟩
    exact ⟨l, ⟨(id, l), SortedMap.mem_entries.mpr hget, rfl⟩, hb⟩

/-- A cell is skipped, or it advances the frontier of its lease by the delta
that is returned. -/
theorem absorbCell_ledger {s : SegmentScheduler} (hs : s.ledger.WellFormed)
    (cell : Option LeaseRecord) :
    s.absorbCell cell = (0, s) ∨
    ∃ id lease next, s.active.get? id = some lease ∧ lease.nextOffset ≤ next ∧
      next ≤ lease.stop + 1 ∧ (s.absorbCell cell).1 = next - lease.nextOffset ∧
      (s.absorbCell cell).2.ledger = s.ledger.advance id lease next := by
  rcases cell with - | record
  · exact .inl rfl
  rcases hget : s.active.get? record.leaseId with - | lease
  · left
    simp [absorbCell, leaseNextOffset, hget]
  have hle := (hs.bounds hget).next_le
  by_cases hgen : lease.generation = record.generation
  swap
  · left
    simp [absorbCell, leaseNextOffset, reportProgress, hget, hgen]
  by_cases hold : record.writtenThrough ≤ lease.nextOffset
  · left
    simp [absorbCell, leaseNextOffset, reportProgress, hget, hgen, hold]
  · refine .inr ⟨record.leaseId, lease, min record.writtenThrough (lease.stop + 1), hget, ?_,
      min_le_right _ _, ?_, ?_⟩
    · exact le_min (not_le.mp hold).le hle
    · simp [absorbCell, leaseNextOffset, reportProgress, hget, hgen, hold]
    · simp [absorbCell, leaseNextOffset, reportProgress, hget, hgen, hold, ledger, Ledger.advance]

/-- The bytes a cell settles: those its lease acknowledges only afterwards. -/
def cellBytes (s : SegmentScheduler) (cell : Option LeaseRecord) : Finset ℕ :=
  (s.absorbCell cell).2.acknowledgedBytes \ s.acknowledgedBytes

/-- Absorbing a cell acknowledges no byte less. -/
theorem acknowledgedBytes_subset_absorbCell {s : SegmentScheduler} (hs : s.ledger.WellFormed)
    (cell : Option LeaseRecord) :
    s.acknowledgedBytes ⊆ (s.absorbCell cell).2.acknowledgedBytes := by
  intro b hb
  rcases absorbCell_ledger hs cell with h | ⟨id, lease, next, hget, hlow, -, -, h⟩
  · rw [h]
    exact hb
  · obtain ⟨a, l, hl, h₁, h₂⟩ := mem_acknowledgedBytes.mp hb
    rw [mem_acknowledgedBytes, h]
    by_cases ha : a = id
    · subst ha
      obtain rfl : lease = l := Option.some.inj (hget.symm.trans hl)
      exact ⟨a, { lease with nextOffset := next }, by simp [Ledger.advance], h₁,
        h₂.trans_le hlow⟩
    · refine ⟨a, l, ?_, h₁, h₂⟩
      rw [Ledger.advance, SortedMap.get?_insert_of_ne _ _ ha]
      exact hl

/-- **A delta counts the bytes its cell settles, and none of them was settled
before.** -/
theorem absorbCell_credit {s : SegmentScheduler} (hs : s.ledger.WellFormed)
    (cell : Option LeaseRecord) :
    (s.absorbCell cell).1 = (s.cellBytes cell).card ∧
      ∀ b ∈ s.cellBytes cell, ¬ s.ledger.Settled b := by
  rcases absorbCell_ledger hs cell with h | ⟨id, lease, next, hget, hlow, hend, hδ, h⟩
  · simp [cellBytes, h]
  have hb := hs.bounds hget
  -- the owner of a byte of the advanced part is the lease itself
  have hnot : ∀ b, lease.nextOffset ≤ b → b < next → ¬ s.ledger.Settled b := by
    intro b h₁ h₂ hset
    have hspan : s.ledger.Holds (.lease id) b :=
      ⟨lease, hget, hb.start_le_next.trans h₁, by omega⟩
    rcases hset with hc | ⟨a, l, hl, h₃, h₄⟩
    · cases hs.owned.unique .completed (.lease id) b hc hspan
    · have hle := (hs.bounds hl).next_le
      cases hs.owned.unique (.lease a) (.lease id) b ⟨l, hl, h₃, by omega⟩ hspan
      obtain rfl : lease = l := Option.some.inj (hget.symm.trans hl)
      omega
  have hbytes : s.cellBytes cell = Finset.Ico lease.nextOffset next := by
    ext b
    rw [cellBytes, Finset.mem_sdiff, mem_acknowledgedBytes, mem_acknowledgedBytes, h,
      Finset.mem_Ico]
    constructor
    · rintro ⟨⟨a, l, hl, h₁, h₂⟩, hnew⟩
      simp only [Ledger.advance, SortedMap.get?_insert] at hl
      split_ifs at hl with ha
      · cases hl
        by_contra hcon
        refine hnew ⟨id, lease, hget, h₁, ?_⟩
        simp only at h₂
        omega
      · exact absurd ⟨a, l, hl, h₁, h₂⟩ hnew
    · rintro ⟨h₁, h₂⟩
      refine ⟨⟨id, { lease with nextOffset := next }, by simp [Ledger.advance],
        hb.start_le_next.trans h₁, h₂⟩, fun hack => hnot b h₁ h₂ (.inr hack)⟩
  refine ⟨?_, fun b hmem => ?_⟩
  · rw [hδ, hbytes, Nat.card_Ico]
  · rw [hbytes, Finset.mem_Ico] at hmem
    exact hnot b hmem.1 hmem.2

/-- What a cell settles is settled afterwards. -/
theorem settled_of_mem_cellBytes {s : SegmentScheduler} {cell : Option LeaseRecord} {b : ℕ}
    (h : b ∈ s.cellBytes cell) : (s.absorbCell cell).2.ledger.Settled b :=
  .inr (mem_acknowledgedBytes.mp (Finset.mem_sdiff.mp h).1)

/-- The bytes behind each delta of a reconciliation. -/
def absorbedBytes (s : SegmentScheduler) : List (Option LeaseRecord) → List (Finset ℕ)
  | [] => []
  | cell :: cells => s.cellBytes cell :: (s.absorbCell cell).2.absorbedBytes cells

theorem absorbCell_wellFormed {s : SegmentScheduler} (hs : s.ledger.WellFormed)
    (cell : Option LeaseRecord) : (s.absorbCell cell).2.ledger.WellFormed :=
  hs.steps (s.absorbCell_steps cell)

theorem absorbWorkerProgress_deltas {s : SegmentScheduler} (hs : s.ledger.WellFormed)
    (cells : List (Option LeaseRecord)) :
    (s.absorbWorkerProgress cells).1 = (s.absorbedBytes cells).map Finset.card := by
  induction cells generalizing s with
  | nil => rfl
  | cons cell cells ih =>
    simp only [absorbWorkerProgress, absorbedBytes, List.map_cons]
    rw [(absorbCell_credit hs cell).1, ih (absorbCell_wellFormed hs cell)]

theorem absorbedBytes_settled {s : SegmentScheduler} (hs : s.ledger.WellFormed)
    (cells : List (Option LeaseRecord)) :
    s.ledger.SettledBetween (s.absorbWorkerProgress cells).2.ledger (s.absorbedBytes cells) := by
  induction cells generalizing s with
  | nil => exact .nil
  | cons cell cells ih =>
    have hs' := absorbCell_wellFormed hs cell
    have hhead : s.ledger.SettledBetween (s.absorbCell cell).2.ledger [s.cellBytes cell] := by
      refine ⟨fun c hc b hb => ?_, fun c hc b hb => ?_, List.pairwise_singleton _ _⟩
      · obtain rfl := List.mem_singleton.mp hc
        exact (absorbCell_credit hs cell).2 b hb
      · obtain rfl := List.mem_singleton.mp hc
        exact settled_of_mem_cellBytes hb
    exact hhead.append (ih hs') (fun b => .steps hs (s.absorbCell_steps cell))
      (fun b => .steps hs' ((s.absorbCell cell).2.absorbWorkerProgress_steps cells))

/-- A reconciliation extends the acknowledged prefixes by the sum of its
deltas. -/
theorem absorbWorkerProgress_growth {s : SegmentScheduler} (hs : s.ledger.WellFormed)
    (cells : List (Option LeaseRecord)) :
    (s.absorbWorkerProgress cells).2.acknowledgedBytes.card =
      s.acknowledgedBytes.card + (s.absorbWorkerProgress cells).1.sum := by
  induction cells generalizing s with
  | nil => rfl
  | cons cell cells ih =>
    have hcell := Finset.card_sdiff_add_card_eq_card (acknowledgedBytes_subset_absorbCell hs cell)
    have hδ := (absorbCell_credit hs cell).1
    rw [cellBytes] at hδ
    have hrest := ih (absorbCell_wellFormed hs cell)
    simp only [absorbWorkerProgress, List.sum_cons]
    omega

/-! ### Runs -/

/-- The deltas a call returns to its caller. -/
def credited (s : SegmentScheduler) : SchedulerOp → List ℕ
  | .absorbWorkerProgress cells => (s.absorbWorkerProgress cells).1
  | _ => []

/-- The bytes behind them. -/
def creditedBytes (s : SegmentScheduler) : SchedulerOp → List (Finset ℕ)
  | .absorbWorkerProgress cells => s.absorbedBytes cells
  | _ => []

/-- By how many bytes the acknowledged prefixes grow in a call that returns
deltas. -/
def growth (s : SegmentScheduler) : SchedulerOp → ℤ
  | .absorbWorkerProgress cells =>
      (s.absorbWorkerProgress cells).2.acknowledgedBytes.card - s.acknowledgedBytes.card
  | _ => 0

/-- All deltas returned in a run. -/
def runCredited (s : SegmentScheduler) : List SchedulerOp → List ℕ
  | [] => []
  | op :: ops => s.credited op ++ (s.apply op).1.runCredited ops

/-- All bytes credited in a run. -/
def runCreditedBytes (s : SegmentScheduler) : List SchedulerOp → List (Finset ℕ)
  | [] => []
  | op :: ops => s.creditedBytes op ++ (s.apply op).1.runCreditedBytes ops

/-- The growth of the acknowledged prefixes in the crediting calls of a run. -/
def runGrowth (s : SegmentScheduler) : List SchedulerOp → ℤ
  | [] => 0
  | op :: ops => s.growth op + (s.apply op).1.runGrowth ops

/-- What one call credits. -/
theorem credited_spec {s : SegmentScheduler} (hs : s.ledger.WellFormed) (op : SchedulerOp) :
    s.credited op = (s.creditedBytes op).map Finset.card ∧
      ((s.credited op).sum : ℤ) = s.growth op ∧
      s.ledger.SettledBetween (s.apply op).1.ledger (s.creditedBytes op) := by
  cases op with
  | absorbWorkerProgress cells =>
    refine ⟨absorbWorkerProgress_deltas hs cells, ?_, absorbedBytes_settled hs cells⟩
    have h := absorbWorkerProgress_growth hs cells
    simp only [credited, growth]
    omega
  | _ => exact ⟨rfl, rfl, .nil⟩

/-- What a run credits. -/
theorem runCredited_spec {s : SegmentScheduler} (hs : s.ledger.WellFormed)
    (ops : List SchedulerOp) :
    s.runCredited ops = (s.runCreditedBytes ops).map Finset.card ∧
      ((s.runCredited ops).sum : ℤ) = s.runGrowth ops ∧
      s.ledger.SettledBetween (s.run ops).1.ledger (s.runCreditedBytes ops) := by
  induction ops generalizing s with
  | nil => exact ⟨rfl, rfl, .nil⟩
  | cons op ops ih =>
    obtain ⟨hcard, hsum, hset⟩ := credited_spec hs op
    have hs' := hs.steps (s.apply_steps op)
    obtain ⟨hcard', hsum', hset'⟩ := ih hs'
    refine ⟨?_, ?_, ?_⟩
    · simp only [runCredited, runCreditedBytes, List.map_append, hcard, hcard']
    · simp only [runCredited, runGrowth, List.sum_append]
      rw [Int.natCast_add, hsum, hsum']
    · exact hset.append hset' (fun b => .steps hs (s.apply_steps op))
        (fun b => .steps hs' ((s.apply op).1.run_steps ops))

/-- **Unique progress credit.**  In every run from every initialization, the
returned deltas add up to the growth of the acknowledged prefixes in the calls
that returned them; they count pairwise disjoint sets of bytes of the domain
that were not completed at the start; so their sum is at most the total less
the initially completed bytes. -/
theorem run_credit_unique (total : ℕ) (ranges : List ByteRange) (policy : SchedulerPolicy)
    (ops : List SchedulerOp) :
    let s := initialized total ranges policy
    ((s.runCredited ops).sum : ℤ) = s.runGrowth ops ∧
    s.runCredited ops = (s.runCreditedBytes ops).map Finset.card ∧
    (s.runCreditedBytes ops).Pairwise Disjoint ∧
    (∀ c ∈ s.runCreditedBytes ops, ∀ b ∈ c, b < total ∧ b ∉ s.completed) ∧
    s.completed.len ≤ total ∧
    (s.runCredited ops).sum ≤ total - s.completed.len := by
  intro s
  have hs : s.ledger.WellFormed := initialized_wellFormed total ranges policy
  obtain ⟨hcard, hsum, hset⟩ := runCredited_spec hs ops
  have htotal : (s.run ops).1.totalSize = total := steps_totalSize (s.run_steps ops)
  have hbytes : ∀ c ∈ s.runCreditedBytes ops, ∀ b ∈ c, b < total ∧ b ∉ s.completed := by
    intro c hc b hb
    have hlt := (hs.steps (s.run_steps ops)).lt_of_settled (hset.settled c hc b hb)
    rw [ledger_totalSize, htotal] at hlt
    exact ⟨hlt, fun hmem => hset.unsettled c hc b hb (.inl hmem)⟩
  -- the completed bytes and the credited sets share the domain
  have hdom : s.completed.toFinset ⊆ Finset.range total := by
    intro b hb
    exact Finset.mem_range.mpr (mem_clampCompleted.mp (IntervalSet.mem_toFinset.mp hb)).1
  have hle := Finset.card_le_card hdom
  rw [IntervalSet.card_toFinset, Finset.card_range] at hle
  have hbound := sum_card_le_of_disjoint hset.disjoint
    (t := Finset.range total \ s.completed.toFinset) fun c hc b hb => by
      obtain ⟨hlt, hnot⟩ := hbytes c hc b hb
      rw [Finset.mem_sdiff, Finset.mem_range, IntervalSet.mem_toFinset]
      exact ⟨hlt, hnot⟩
  rw [Finset.card_sdiff_of_subset hdom, Finset.card_range, IntervalSet.card_toFinset,
    ← hcard] at hbound
  exact ⟨hsum, hcard, hset.disjoint, hbytes, hle, hbound⟩

end SegmentScheduler

end KDown
