/-
KDown/SchedulerCoverage.lean

How many bytes a scheduler covers, and which calls change that number.

The coverage is the set of bytes that are completed or acknowledged.  Carving,
splitting and giving back a lease keep it as it is, and so does completing a
lease that was acknowledged to its end.  A reconciliation extends it by the sum
of the deltas it returns (`card_coverage_absorb`), so a caller that adds up its
deltas knows the coverage.

The second half says what a reconciliation does to each lease when no two
workers publish for the same one (`absorbWorkerProgress_own`).
-/
import KDown.SchedulerCredit
import KDown.Checkpoint

namespace KDown

/-! ### Steps that settle nothing -/

namespace Ledger

variable {g : Ledger} {b : ℕ}

theorem settled_of_carve {start stop : ℕ} (h : (g.carve start stop).Settled b) : g.Settled b := by
  obtain hc | ⟨id, l, hl, h₁, h₂⟩ := h
  · exact .inl hc
  simp only [Ledger.carve, SortedMap.get?_insert] at hl
  split_ifs at hl
  · -- nothing of a new lease is acknowledged
    cases hl
    exact absurd h₁ (not_le.mpr h₂)
  · exact .inr ⟨id, l, hl, h₁, h₂⟩

theorem settled_of_split {a newStart : ℕ} {lease : SegmentLease}
    (hget : g.active.get? a = some lease) (h : (g.split a lease newStart).Settled b) :
    g.Settled b := by
  obtain hc | ⟨id, l, hl, h₁, h₂⟩ := h
  · exact .inl hc
  simp only [Ledger.split, SortedMap.get?_insert] at hl
  split_ifs at hl
  · cases hl
    exact absurd h₁ (not_le.mpr h₂)
  · cases hl
    exact .inr ⟨a, lease, hget, h₁, h₂⟩
  · exact .inr ⟨id, l, hl, h₁, h₂⟩

theorem settled_of_giveBack {a : ℕ} {lease : SegmentLease}
    (hget : g.active.get? a = some lease) (h : (g.giveBack a lease).Settled b) :
    g.Settled b := by
  obtain hc | ⟨id, l, hl, h₁, h₂⟩ := h
  · simp only [Ledger.giveBack] at hc
    split_ifs at hc
    · cases IntervalSet.mem_insert.mp hc with
      | inl hold => exact .inl hold
      | inr hin => exact .inr ⟨a, lease, hget, hin.1, by omega⟩
    · exact .inl hc
  · simp only [Ledger.giveBack, SortedMap.get?_erase] at hl
    split_ifs at hl
    exact .inr ⟨id, l, hl, h₁, h₂⟩

theorem settled_of_credit {a : ℕ} {lease : SegmentLease}
    (hget : g.active.get? a = some lease) (hwhole : lease.nextOffset = lease.stop + 1)
    (h : (g.credit a lease).Settled b) : g.Settled b := by
  obtain hc | ⟨id, l, hl, h₁, h₂⟩ := h
  · cases IntervalSet.mem_insert.mp hc with
    | inl hold => exact .inl hold
    | inr hin => exact .inr ⟨a, lease, hget, hin.1, by omega⟩
  · simp only [Ledger.credit, SortedMap.get?_erase] at hl
    split_ifs at hl
    exact .inr ⟨id, l, hl, h₁, h₂⟩

end Ledger

/-! ### Coverage -/

namespace SegmentScheduler

variable {s s' : SegmentScheduler}

/-- The completed and the acknowledged bytes. -/
def coverage (s : SegmentScheduler) : Finset ℕ := s.completed.toFinset ∪ s.acknowledgedBytes

theorem mem_coverage {b : ℕ} : b ∈ s.coverage ↔ s.ledger.Settled b := by
  rw [coverage, Finset.mem_union, IntervalSet.mem_toFinset, mem_acknowledgedBytes]
  rfl

theorem card_coverage (hs : s.ledger.WellFormed) :
    s.coverage.card = s.completed.len + s.acknowledgedBytes.card := by
  rw [coverage, Finset.card_union_of_disjoint, IntervalSet.card_toFinset]
  rw [Finset.disjoint_left]
  intro b hc ha
  rw [IntervalSet.mem_toFinset] at hc
  obtain ⟨id, l, hl, h₁, h₂⟩ := mem_acknowledgedBytes.mp ha
  have hle := (hs.bounds hl).next_le
  cases hs.owned.unique .completed (.lease id) b hc ⟨l, hl, h₁, by omega⟩

/-- A call that settles nothing new keeps the coverage. -/
theorem coverage_eq (hs : s.ledger.WellFormed)
    (hsteps : Relation.ReflTransGen Ledger.Step s.ledger s'.ledger)
    (h : ∀ b, s'.ledger.Settled b → s.ledger.Settled b) : s'.coverage = s.coverage := by
  ext b
  rw [mem_coverage, mem_coverage]
  exact ⟨h b, fun hb => hb.steps hs hsteps⟩

theorem coverage_acquire (hs : s.ledger.WellFormed) {now : ℕ} {lease : SegmentLease}
    (h : s.acquire now = some (lease, s')) : s'.coverage = s.coverage := by
  obtain ⟨start, stop, gapEnd, hgap, hord, hend, -, hled⟩ := acquire_ledger h
  refine coverage_eq hs ?_ fun b hb => ?_
  · rw [hled]
    exact .single (.carve hgap hord hend)
  · rw [hled] at hb
    exact Ledger.settled_of_carve hb

theorem coverage_splitTail (hs : s.ledger.WellFormed) {id generation minTail received now : ℕ}
    {lease : SegmentLease} (h : s.splitTail id generation minTail received now = some (lease, s')) :
    s'.coverage = s.coverage := by
  obtain ⟨l, newStart, hget, -, hlow, -, hend, -, hled⟩ := splitTail_ledger h
  refine coverage_eq hs ?_ fun b hb => ?_
  · rw [hled]
    exact .single (.split hget hlow hend)
  · rw [hled] at hb
    exact Ledger.settled_of_split hget hb

theorem coverage_fail (hs : s.ledger.WellFormed) (id generation now : ℕ) :
    (s.fail id generation now).2.coverage = s.coverage := by
  obtain h | ⟨lease, hget, -, hled⟩ := s.fail_ledger id generation now
  · rw [h]
  refine coverage_eq hs ?_ fun b hb => ?_
  · rw [hled]
    exact .single (.giveBack hget)
  · rw [hled] at hb
    exact Ledger.settled_of_giveBack hget hb

/-- Completing a lease that was acknowledged to its end. -/
theorem coverage_complete (hs : s.ledger.WellFormed) {id generation now : ℕ}
    (hwhole : ∀ l, s.active.get? id = some l → l.nextOffset = l.stop + 1) :
    (s.complete id generation now).2.coverage = s.coverage := by
  obtain h | ⟨lease, hget, -, hled⟩ := s.complete_ledger id generation now
  · rw [h]
  refine coverage_eq hs ?_ fun b hb => ?_
  · rw [hled]
    exact .single (.credit hget)
  · rw [hled] at hb
    exact Ledger.settled_of_credit hget (hwhole lease hget) hb

theorem settled_of_foldl_reclaim {b : ℕ} (ids : List ℕ)
    (h : (ids.foldl reclaim s).ledger.Settled b) : s.ledger.Settled b := by
  induction ids generalizing s with
  | nil => exact h
  | cons id ids ih =>
    have hrest := ih h
    obtain hsame | ⟨lease, hget, hled⟩ := s.reclaim_ledger id
    · rwa [hsame] at hrest
    · rw [hled] at hrest
      exact Ledger.settled_of_giveBack hget hrest

theorem coverage_bumpGeneration (hs : s.ledger.WellFormed) :
    s.bumpGeneration.coverage = s.coverage :=
  coverage_eq hs s.bumpGeneration_ledger fun _ hb =>
    settled_of_foldl_reclaim (s := { s with generation := s.generation + 1 }) _ hb

/-- A report for a lease that stands at its end changes nothing. -/
theorem reportProgress_whole {id generation offset : ℕ}
    (hwhole : ∀ l, s.active.get? id = some l → l.nextOffset = l.stop + 1) :
    (s.reportProgress id generation offset).2.ledger = s.ledger := by
  obtain h | ⟨lease, hget, -, hlt, hled⟩ := s.reportProgress_ledger id generation offset
  · rw [h]
  have hnext : min offset (lease.stop + 1) = lease.nextOffset := by
    have := hwhole lease hget
    omega
  rw [hled, hnext, Ledger.advance]
  have hsame : s.active.insert id { lease with nextOffset := lease.nextOffset } = s.active := by
    apply SortedMap.ext_get?
    intro k
    rw [SortedMap.get?_insert]
    split_ifs with hk
    · rw [hk]
      exact hget.symm
    · rfl
  rw [ledger_active, hsame]
  rfl

theorem coverage_eq_of_ledger (h : s'.ledger = s.ledger) : s'.coverage = s.coverage := by
  ext b
  rw [mem_coverage, mem_coverage, h]

theorem reportProgress_completed (id generation offset : ℕ) :
    (s.reportProgress id generation offset).2.completed = s.completed := by
  obtain h | ⟨lease, -, -, -, hled⟩ := s.reportProgress_ledger id generation offset
  · rw [h]
  · exact congrArg Ledger.completed hled

theorem absorbCell_completed (cell : Option LeaseRecord) :
    (s.absorbCell cell).2.completed = s.completed := by
  unfold absorbCell
  cases cell with
  | none => rfl
  | some r =>
    simp only
    cases s.leaseNextOffset r.leaseId with
    | none => rfl
    | some before =>
      simp only
      split_ifs
      · exact reportProgress_completed _ _ _
      · exact reportProgress_completed _ _ _

theorem absorbWorkerProgress_completed (cells : List (Option LeaseRecord)) :
    (s.absorbWorkerProgress cells).2.completed = s.completed := by
  induction cells generalizing s with
  | nil => rfl
  | cons cell cells ih => exact ih.trans (absorbCell_completed cell)

/-- **A reconciliation extends the coverage by the sum of its deltas.** -/
theorem card_coverage_absorb (hs : s.ledger.WellFormed) (cells : List (Option LeaseRecord)) :
    (s.absorbWorkerProgress cells).2.coverage.card =
      s.coverage.card + (s.absorbWorkerProgress cells).1.sum := by
  rw [card_coverage hs, card_coverage (hs.steps (s.absorbWorkerProgress_steps cells)),
    absorbWorkerProgress_completed, absorbWorkerProgress_growth hs, Nat.add_assoc]

/-- A complete scheduler covers its domain. -/
theorem card_coverage_of_isComplete (hs : s.ledger.WellFormed) (h : s.isComplete = true) :
    s.coverage.card = s.totalSize := by
  have hsub : s.coverage ⊆ Finset.range s.totalSize := by
    intro b hb
    exact Finset.mem_range.mpr (hs.lt_of_settled (mem_coverage.mp hb))
  have hle := Finset.card_le_card hsub
  rw [Finset.card_range] at hle
  have hcard := card_coverage hs
  simp only [isComplete, Bool.or_eq_true, decide_eq_true_eq] at h
  omega

/-! ### Leases after a call -/

/-- Completing one's own lease removes it. -/
theorem complete_active {id generation : ℕ} (now : ℕ)
    (h : ∀ l, s.active.get? id = some l → l.generation = generation) :
    (s.complete id generation now).2.active = s.active.erase id := by
  cases e : s.active.get? id with
  | none =>
    rw [SortedMap.erase_of_get?_eq_none e]
    simp only [complete, e]
  | some lease => exact congrArg Ledger.active (complete_of_get? e (h lease e) now)

/-- Failing one's own lease removes it. -/
theorem fail_active {id generation : ℕ} (now : ℕ)
    (h : ∀ l, s.active.get? id = some l → l.generation = generation) :
    (s.fail id generation now).2.active = s.active.erase id := by
  cases e : s.active.get? id with
  | none =>
    rw [SortedMap.erase_of_get?_eq_none e]
    simp only [fail, e]
  | some lease => exact congrArg Ledger.active (fail_of_get? e (h lease e) now)

/-- A reclaimed lease is gone. -/
theorem get?_foldl_reclaim (ids : List ℕ) (id : ℕ) :
    (ids.foldl reclaim s).active.get? id = if id ∈ ids then none else s.active.get? id := by
  induction ids generalizing s with
  | nil => rfl
  | cons a ids ih =>
    have hone : (s.reclaim a).active.get? id = if id = a then none else s.active.get? id := by
      unfold reclaim
      cases e : s.active.get? a with
      | none =>
        simp only
        split_ifs with ha
        · rw [ha, e]
        · rfl
      | some lease =>
        show (s.active.erase a).get? id = _
        rw [SortedMap.get?_erase]
    rw [List.foldl_cons, ih, hone]
    by_cases hmem : id ∈ ids
    · rw [if_pos hmem, if_pos (List.mem_cons_of_mem _ hmem)]
    · simp only [if_neg hmem, List.mem_cons, or_iff_left hmem]

/-- No lease survives a new generation. -/
theorem get?_bumpGeneration (id : ℕ) : s.bumpGeneration.active.get? id = none := by
  rw [bumpGeneration, get?_foldl_reclaim]
  split_ifs with hmem
  · rfl
  · cases e : s.active.get? id with
    | none => rfl
    | some lease =>
      refine absurd ?_ hmem
      exact List.mem_map.mpr ⟨(id, lease), SortedMap.mem_entries.mpr e, rfl⟩

/-! ### Reconciling cells of different leases -/

theorem absorbCell_of_dead {r : LeaseRecord} (h : s.active.get? r.leaseId = none) :
    s.absorbCell (some r) = (0, s) := by
  simp [absorbCell, leaseNextOffset, h]

/-- A record inside its lease moves the frontier to what was written. -/
theorem absorbCell_of_live {r : LeaseRecord} {l : SegmentLease}
    (hget : s.active.get? r.leaseId = some l) (hgen : l.generation = r.generation)
    (hlow : l.nextOffset ≤ r.writtenThrough) (hend : r.writtenThrough ≤ l.stop + 1) :
    (s.absorbCell (some r)).1 = r.writtenThrough - l.nextOffset ∧
      (s.absorbCell (some r)).2.active =
        s.active.insert r.leaseId { l with nextOffset := r.writtenThrough } := by
  by_cases hold : r.writtenThrough ≤ l.nextOffset
  · have hsame : r.writtenThrough = l.nextOffset := le_antisymm hold hlow
    have hcell : s.absorbCell (some r) = (0, s) := by
      simp [absorbCell, leaseNextOffset, reportProgress, hget, hgen, hold]
    rw [hcell, hsame, Nat.sub_self]
    refine ⟨rfl, (SortedMap.ext_get? fun k => ?_).symm⟩
    rw [SortedMap.get?_insert]
    split_ifs with hk
    · rw [hk]
      exact hget.symm
    · rfl
  · simp [absorbCell, leaseNextOffset, reportProgress, hget, hgen, hold, min_eq_left hend]

/-- A cell touches no other lease. -/
theorem get?_absorbCell_of_ne {r : LeaseRecord} {id : ℕ} (h : id ≠ r.leaseId) :
    (s.absorbCell (some r)).2.active.get? id = s.active.get? id := by
  have hreport : (s.reportProgress r.leaseId r.generation r.writtenThrough).2.active.get? id =
      s.active.get? id := by
    obtain hsame | ⟨lease, -, -, -, hled⟩ :=
      s.reportProgress_ledger r.leaseId r.generation r.writtenThrough
    · rw [hsame]
    · have hactive := congrArg Ledger.active hled
      rw [ledger_active] at hactive
      rw [hactive, Ledger.advance, SortedMap.get?_insert_of_ne _ _ h]
      rfl
  unfold absorbCell
  simp only
  cases s.leaseNextOffset r.leaseId with
  | none => rfl
  | some before =>
    simp only
    split_ifs
    · exact hreport
    · exact hreport

/-- The delta of a cell depends on its own lease only. -/
theorem absorbCell_fst_congr {r : LeaseRecord}
    (h : s'.active.get? r.leaseId = s.active.get? r.leaseId) :
    (s'.absorbCell (some r)).1 = (s.absorbCell (some r)).1 := by
  cases e : s.active.get? r.leaseId with
  | none =>
    rw [absorbCell_of_dead e, absorbCell_of_dead (h.trans e)]
  | some l =>
    rw [e] at h
    simp only [absorbCell, leaseNextOffset, reportProgress, h, e, Option.map_some]
    split_ifs <;> simp_all

/-- The records of the workers lie inside their leases, and no two of them
belong to one live lease. -/
structure OwnCells (s : SegmentScheduler) (workers : List ℕ) (cells : ℕ → Option LeaseRecord) :
    Prop where
  inside : ∀ v ∈ workers, ∀ r, cells v = some r → ∀ l, s.active.get? r.leaseId = some l →
    l.generation = r.generation ∧ l.nextOffset ≤ r.writtenThrough ∧ r.writtenThrough ≤ l.stop + 1
  own : ∀ v ∈ workers, ∀ v' ∈ workers, v ≠ v' → ∀ r r', cells v = some r → cells v' = some r' →
    r'.leaseId = r.leaseId → s.active.get? r.leaseId = none

/-- The first cell leaves the leases of the others alone. -/
theorem OwnCells.get?_head {v : ℕ} {workers : List ℕ} {cells : ℕ → Option LeaseRecord}
    (h : OwnCells s (v :: workers) cells) {v' : ℕ} (hv' : v' ∈ workers) (hne : v ≠ v')
    {r' : LeaseRecord} (hr' : cells v' = some r') :
    (s.absorbCell (cells v)).2.active.get? r'.leaseId = s.active.get? r'.leaseId := by
  cases hr : cells v with
  | none => rfl
  | some r =>
    by_cases hid : r'.leaseId = r.leaseId
    · have hdead := h.own v List.mem_cons_self v' (List.mem_cons_of_mem _ hv') hne r r' hr hr' hid
      rw [absorbCell_of_dead hdead]
    · exact get?_absorbCell_of_ne hid

theorem OwnCells.tail {v : ℕ} {workers : List ℕ} {cells : ℕ → Option LeaseRecord}
    (h : OwnCells s (v :: workers) cells) (hnew : v ∉ workers) :
    OwnCells (s.absorbCell (cells v)).2 workers cells := by
  have hother : ∀ v' ∈ workers, v ≠ v' := by
    intro v' hv' heq
    exact hnew (heq ▸ hv')
  constructor
  · intro v' hv' r' hr' l hl
    rw [h.get?_head hv' (hother v' hv') hr'] at hl
    exact h.inside v' (List.mem_cons_of_mem _ hv') r' hr' l hl
  · intro a ha a' ha' hne r r' hr hr' hid
    rw [h.get?_head ha (hother a ha) hr]
    exact h.own a (List.mem_cons_of_mem _ ha) a' (List.mem_cons_of_mem _ ha') hne r r' hr hr' hid

/-- **When every live lease has one publishing worker, each worker is credited
for its own lease.** -/
theorem absorbWorkerProgress_own {workers : List ℕ} {cells : ℕ → Option LeaseRecord}
    (hnodup : workers.Nodup) (h : OwnCells s workers cells) :
    (s.absorbWorkerProgress (workers.map cells)).1 =
        workers.map (fun v => (s.absorbCell (cells v)).1) ∧
      (∀ id, (∀ v ∈ workers, ∀ r, cells v = some r → r.leaseId ≠ id) →
        (s.absorbWorkerProgress (workers.map cells)).2.active.get? id = s.active.get? id) ∧
      ∀ v ∈ workers, ∀ r, cells v = some r → ∀ l, s.active.get? r.leaseId = some l →
        (s.absorbWorkerProgress (workers.map cells)).2.active.get? r.leaseId =
          some { l with nextOffset := r.writtenThrough } := by
  induction workers generalizing s with
  | nil => exact ⟨rfl, fun _ _ => rfl, fun _ hv => absurd hv List.not_mem_nil⟩
  | cons v workers ih =>
    obtain ⟨hnew, hnodup⟩ := List.nodup_cons.mp hnodup
    obtain ⟨hdeltas, hothers, hown⟩ := ih hnodup (h.tail hnew)
    have hne : ∀ v' ∈ workers, v ≠ v' := by
      intro v' hv' heq
      exact hnew (heq ▸ hv')
    refine ⟨?_, ?_, ?_⟩
    · -- the later deltas are those of the state before the first cell
      show (s.absorbCell (cells v)).1 :: _ = (s.absorbCell (cells v)).1 :: _
      rw [hdeltas]
      congr 1
      apply List.map_congr_left
      intro v' hv'
      cases hr' : cells v' with
      | none => rfl
      | some r' => exact absorbCell_fst_congr (h.get?_head hv' (hne v' hv') hr')
    · intro id hid
      refine (hothers id fun v' hv' => hid v' (List.mem_cons_of_mem _ hv')).trans ?_
      cases hr : cells v with
      | none => rfl
      | some r => exact get?_absorbCell_of_ne (hid v List.mem_cons_self r hr).symm
    · intro v' hv' r hr l hl
      cases List.mem_cons.mp hv' with
      | inl heq =>
        -- its own cell comes first, and no later one has the lease
        subst heq
        obtain ⟨hgen, hlow, hend⟩ := h.inside v' List.mem_cons_self r hr l hl
        refine (hothers r.leaseId fun a ha r' hr' hid => ?_).trans ?_
        · have hdead := h.own v' List.mem_cons_self a (List.mem_cons_of_mem _ ha) (hne a ha) r r' hr
            hr' hid
          rw [hdead] at hl
          cases hl
        · rw [hr, (absorbCell_of_live hl hgen hlow hend).2, SortedMap.get?_insert_self]
      | inr hmem =>
        refine hown v' hmem r hr l ?_
        rw [h.get?_head hmem (hne v' hmem) hr]
        exact hl

end SegmentScheduler

/-! ### The coverage at the start -/

/-- Ordered, apart, and below the total. -/
def AdmittedOk (total : ℕ) (ranges : List ByteRange) : Prop :=
  ranges.Pairwise (fun r r' => r.2 < r'.1) ∧ ∀ r ∈ ranges, r.1 ≤ r.2 ∧ r.2 < total

/-- Unique bytes covered by ordered ranges. -/
def completedBytes (ranges : List ByteRange) : ℕ := (ranges.map fun r => r.2 - r.1 + 1).sum

/-- The bytes of ordered ranges are as many as their lengths add up to. -/
theorem card_biUnion_ranges {total : ℕ} {ranges : List ByteRange} (h : AdmittedOk total ranges) :
    (ranges.toFinset.biUnion fun r => Finset.Icc r.1 r.2).card = completedBytes ranges := by
  induction ranges with
  | nil => rfl
  | cons r ranges ih =>
    obtain ⟨hfirst, hpair⟩ := List.pairwise_cons.mp h.1
    have hrest := ih ⟨hpair, fun r' hr' => h.2 r' (List.mem_cons_of_mem _ hr')⟩
    have hord := (h.2 r List.mem_cons_self).1
    -- the first range lies before all others
    have hdisj : Disjoint (Finset.Icc r.1 r.2)
        (ranges.toFinset.biUnion fun r => Finset.Icc r.1 r.2) := by
      rw [Finset.disjoint_left]
      intro b hb hrest
      obtain ⟨r', hr', hb'⟩ := Finset.mem_biUnion.mp hrest
      have hlt := hfirst r' (List.mem_toFinset.mp hr')
      rw [Finset.mem_Icc] at hb hb'
      omega
    rw [List.toFinset_cons, Finset.biUnion_insert, Finset.card_union_of_disjoint hdisj, hrest,
      Nat.card_Icc]
    simp only [completedBytes, List.map_cons, List.sum_cons]
    omega

/-- **At the start the coverage is what was admitted.** -/
theorem SegmentScheduler.card_coverage_initialized {total : ℕ} {ranges : List ByteRange}
    (h : AdmittedOk total ranges) (policy : SchedulerPolicy) :
    (initialized total ranges policy).coverage.card = completedBytes ranges := by
  rw [← card_biUnion_ranges h]
  congr 1
  ext b
  rw [coverage, Finset.mem_union, IntervalSet.mem_toFinset, Finset.mem_biUnion]
  show b ∈ clampCompleted total ranges ∨ b ∈ (∅ : Finset ℕ) ↔ _
  rw [mem_clampCompleted, or_iff_left (Finset.notMem_empty b)]
  constructor
  · rintro ⟨-, r, hr, hb⟩
    exact ⟨r, List.mem_toFinset.mpr hr, Finset.mem_Icc.mpr hb⟩
  · rintro ⟨r, hr, hb⟩
    rw [List.mem_toFinset] at hr
    rw [Finset.mem_Icc] at hb
    exact ⟨hb.2.trans_lt (h.2 r hr).2, r, hr, hb⟩

/-- A validated checkpoint has such ranges. -/
theorem pairwise_of_validateRanges {ranges : List ByteRange} {prev : Option ℕ}
    (h : validateRanges prev ranges = .ok ()) :
    ranges.Pairwise (fun r r' => r.2 < r'.1) ∧ (∀ r ∈ ranges, r.1 ≤ r.2) ∧
      ∀ p, prev = some p → ∀ r ∈ ranges, p < r.1 := by
  induction ranges generalizing prev with
  | nil => simp
  | cons r ranges ih =>
    obtain ⟨start, stop⟩ := r
    simp only [validateRanges] at h
    split_ifs at h with hord
    have hrest : validateRanges (some stop) ranges = .ok () ∧ ∀ p, prev = some p → p < start := by
      cases prev with
      | none => exact ⟨h, fun _ hp => by cases hp⟩
      | some pe =>
        simp only at h
        split_ifs at h with hlt
        exact ⟨h, fun p hp => by cases hp; exact not_le.mp hlt⟩
    obtain ⟨hpair, hall, hafter⟩ := ih hrest.1
    have hstop := hafter stop rfl
    refine ⟨List.pairwise_cons.mpr ⟨hstop, hpair⟩, ?_, ?_⟩
    · intro r' hr'
      cases List.mem_cons.mp hr' with
      | inl heq => rw [heq]; exact not_lt.mp hord
      | inr hmem => exact hall r' hmem
    · intro p hp r' hr'
      have hp := hrest.2 p hp
      cases List.mem_cons.mp hr' with
      | inl heq => rw [heq]; exact hp
      | inr hmem =>
        have := hstop r' hmem
        omega

/-- A valid checkpoint of a known size has ranges that can be admitted. -/
theorem admittedOk_of_validate {cp : Checkpoint} {total : ℕ} (h : cp.validate = .ok ())
    (htotal : cp.totalSize = some total) : AdmittedOk total cp.completedRanges := by
  unfold Checkpoint.validate at h
  split_ifs at h
  cases hv : validateRanges none cp.completedRanges with
  | error e =>
    rw [hv] at h
    cases h
  | ok u =>
    obtain ⟨hpair, hall, -⟩ := pairwise_of_validateRanges hv
    refine ⟨hpair, fun r hr => ⟨hall r hr, ?_⟩⟩
    cases hlast : cp.completedRanges.getLast? with
    | none =>
      rw [List.getLast?_eq_none_iff.mp hlast] at hr
      cases hr
    | some last =>
      have hend : last.2 < total := by
        simp only [hv, htotal, hlast] at h
        split_ifs at h with hle
        exact not_le.mp hle
      -- every other range lies before the last one
      obtain ⟨before, hsplit⟩ := List.getLast?_eq_some_iff.mp hlast
      have hlastle := hall last (by rw [hsplit]; simp)
      rw [hsplit] at hr hpair
      cases List.mem_append.mp hr with
      | inl hmem =>
        have hlt := (List.pairwise_append.mp hpair).2.2 r hmem last (by simp)
        omega
      | inr hmem =>
        rw [List.mem_singleton.mp hmem]
        exact hend

end KDown
