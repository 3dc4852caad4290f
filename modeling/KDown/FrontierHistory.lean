/-
KDown/FrontierHistory.lean

Whole histories of a lease's write frontier (io/write_frontier.rs).

A worker submits chunks of its lease one after the other; the executor reports
their completions in any order, some of them failed, some of them twice, and
mixed with completions that belong to another lease or generation.  A history
is the list of these calls.  The calls are checked as in the source: a chunk
outside the lease, or an end that does not fit in 64 bits, is a panic
(`none`).

The invariant `Follows` says what the three sets of the frontier hold after a
history: acknowledged is what succeeded, outstanding is what was submitted and
did not complete.  It is kept by every call (`Follows.step`), so the published
offset is a function of the set of successful chunks.

* `frontier_history`: what the frontier publishes after any history, that it
  never goes back, and that the order of the calls does not matter.
-/
import KDown.IntervalSetWords
import KDown.Runs
import KDown.WriteFrontier

namespace KDown

/-! ### Calls -/

/-- The bytes `[offset, offset + len)` of one write. -/
structure WriteChunk where
  offset : ℕ
  len : ℕ
  deriving DecidableEq, Repr

namespace WriteChunk

/-- The byte is one of the chunk. -/
def Covers (c : WriteChunk) (b : ℕ) : Prop := c.offset ≤ b ∧ b < c.offset + c.len

/-- The last byte of the chunk, in 64-bit arithmetic. -/
def last (c : WriteChunk) : Option ℕ := (u64Add c.offset c.len).bind fun past => u64Sub past 1

end WriteChunk

/-- A call of the worker. -/
inductive FrontierCall
  | recordSubmission (c : WriteChunk)
  | recordCompletion (leaseId generation : ℕ) (c : WriteChunk) (success : Bool)
  deriving DecidableEq, Repr

namespace LeaseFrontier

/-- The assertion that a chunk is not empty and lies in the lease. -/
def insideLease (f : LeaseFrontier) (c : WriteChunk) : Bool :=
  0 < c.len && f.start ≤ c.offset && saturatingAdd c.offset c.len ≤ saturatingAdd f.stop 1

/-- One call, with its assertion and its arithmetic. -/
def step (f : LeaseFrontier) : FrontierCall → Option LeaseFrontier
  | .recordSubmission c =>
      if f.insideLease c then c.last.map fun _ => f.recordSubmission c.offset c.len else none
  | .recordCompletion leaseId generation c success =>
      -- a stale completion is turned away before it is looked at
      if leaseId ≠ f.leaseId ∨ generation ≠ f.generation then some f
      else if f.insideLease c then
        c.last.map fun _ => (f.recordCompletion leaseId generation c.offset c.len success).2
      else none

/-- `acknowledged_through` in 64-bit arithmetic. -/
def acknowledgedThrough64 (f : LeaseFrontier) : Option ℕ :=
  (IntervalSet.firstGapFrom64 f.acknowledged.map f.start (saturatingAdd f.stop 1)).map
    fun gap => gap.getD (saturatingAdd f.stop 1)

theorem acknowledgedThrough64_eq {f : LeaseFrontier} (hstop : f.stop < u64Max) :
    f.acknowledgedThrough64 = some f.acknowledgedThrough := by
  rw [acknowledgedThrough64, saturatingAdd_eq hstop,
    IntervalSet.firstGapFrom64_eq f.acknowledged f.start hstop]
  rfl

end LeaseFrontier

/-! ### Histories -/

section History

variable (leaseId generation start stop : ℕ)

/-- The chunks submitted so far. -/
def submittedChunks (h : List FrontierCall) : List WriteChunk :=
  h.filterMap fun call =>
    match call with
    | .recordSubmission c => some c
    | .recordCompletion _ _ _ _ => none

/-- The completions that belong to the lease and its generation. -/
def ownCompletions (h : List FrontierCall) : List (WriteChunk × Bool) :=
  h.filterMap fun call =>
    match call with
    | .recordSubmission _ => none
    | .recordCompletion i g c success =>
        if i = leaseId ∧ g = generation then some (c, success) else none

/-- The chunk has a completion, successful or not. -/
def Completed (h : List FrontierCall) (c : WriteChunk) : Prop :=
  ∃ success, (c, success) ∈ ownCompletions leaseId generation h

/-- The chunk has a successful completion. -/
def Succeeded (h : List FrontierCall) (c : WriteChunk) : Prop :=
  (c, true) ∈ ownCompletions leaseId generation h

/-- What may be called next: a chunk of the lease that shares no byte with an
earlier one is submitted, or a submitted chunk completes, for the first time
or again, or a completion arrives that belongs to somebody else. -/
def MayFollow (h : List FrontierCall) : FrontierCall → Prop
  | .recordSubmission c =>
      (0 < c.len ∧ start ≤ c.offset ∧ c.offset + c.len ≤ stop + 1) ∧
        ∀ c' ∈ submittedChunks h, ∀ b, c.Covers b → ¬ c'.Covers b
  | .recordCompletion i g c _ =>
      i = leaseId ∧ g = generation → c ∈ submittedChunks h

/-- The calls a worker can make, in their order. -/
inductive History : List FrontierCall → Prop
  | nil : History []
  | snoc {h : List FrontierCall} {call : FrontierCall} :
      History h → MayFollow leaseId generation start stop h call → History (h ++ [call])

variable {leaseId generation start stop} {h : List FrontierCall}

theorem submittedChunks_append (h h' : List FrontierCall) :
    submittedChunks (h ++ h') = submittedChunks h ++ submittedChunks h' :=
  List.filterMap_append

theorem ownCompletions_append (h h' : List FrontierCall) :
    ownCompletions leaseId generation (h ++ h') =
      ownCompletions leaseId generation h ++ ownCompletions leaseId generation h' :=
  List.filterMap_append

theorem ownCompletions_own (c : WriteChunk) (success : Bool) :
    ownCompletions leaseId generation [.recordCompletion leaseId generation c success] =
      [(c, success)] := by
  simp [ownCompletions]

theorem ownCompletions_stale {i g : ℕ} (hstale : ¬ (i = leaseId ∧ g = generation))
    (c : WriteChunk) (success : Bool) :
    ownCompletions leaseId generation [.recordCompletion i g c success] = [] := by
  simp [ownCompletions, hstale]

/-- Submitted chunks lie in the lease. -/
theorem History.inside (hh : History leaseId generation start stop h) {c : WriteChunk}
    (hc : c ∈ submittedChunks h) : 0 < c.len ∧ start ≤ c.offset ∧ c.offset + c.len ≤ stop + 1 := by
  induction hh with
  | nil => cases hc
  | @snoc h call hh hnext ih =>
    rw [submittedChunks_append, List.mem_append] at hc
    rcases hc with hc | hc
    · exact ih hc
    · rcases call with c' | ⟨i, g, c', success⟩
      · obtain rfl : c = c' := List.mem_singleton.mp hc
        exact hnext.1
      · cases hc

/-- A byte belongs to one submitted chunk at most. -/
theorem History.same (hh : History leaseId generation start stop h) {c c' : WriteChunk} {b : ℕ}
    (hc : c ∈ submittedChunks h) (hc' : c' ∈ submittedChunks h) (hb : c.Covers b)
    (hb' : c'.Covers b) : c = c' := by
  induction hh with
  | nil => cases hc
  | @snoc h call hh hnext ih =>
    rw [submittedChunks_append, List.mem_append] at hc hc'
    rcases call with d | ⟨i, g, d, success⟩
    · have hlast : submittedChunks [.recordSubmission d] = [d] := rfl
      rw [hlast, List.mem_singleton] at hc hc'
      -- both are old, or the new one meets none of the old ones
      rcases hc with hc | rfl <;> rcases hc' with hc' | rfl
      · exact ih hc hc'
      · exact absurd hb (hnext.2 c hc b hb')
      · exact absurd hb' (hnext.2 c' hc' b hb)
      · rfl
    · exact ih (hc.resolve_right fun hno => (by cases hno))
        (hc'.resolve_right fun hno => (by cases hno))

/-- What completes was submitted. -/
theorem History.submitted (hh : History leaseId generation start stop h) {c : WriteChunk}
    (hc : Completed leaseId generation h c) : c ∈ submittedChunks h := by
  induction hh with
  | nil =>
    obtain ⟨_, hc⟩ := hc
    cases hc
  | @snoc h call hh hnext ih =>
    obtain ⟨success, hc⟩ := hc
    rw [submittedChunks_append, List.mem_append]
    rw [ownCompletions_append, List.mem_append] at hc
    rcases hc with hc | hc
    · exact .inl (ih ⟨success, hc⟩)
    · rcases call with d | ⟨i, g, d, ok⟩
      · cases hc
      · by_cases hown : i = leaseId ∧ g = generation
        · obtain ⟨rfl, rfl⟩ := hown
          rw [ownCompletions_own, List.mem_singleton] at hc
          rw [(Prod.mk.inj hc).1]
          exact .inl (hnext ⟨rfl, rfl⟩)
        · rw [ownCompletions_stale hown] at hc
          cases hc

/-! ### What the frontier holds -/

/-- The byte belongs to a chunk that succeeded. -/
def Acked (leaseId generation : ℕ) (h : List FrontierCall) (b : ℕ) : Prop :=
  ∃ c, Succeeded leaseId generation h c ∧ c.Covers b

/-- The byte belongs to a submitted chunk that did not complete. -/
def InFlight (leaseId generation : ℕ) (h : List FrontierCall) (b : ℕ) : Prop :=
  ∃ c ∈ submittedChunks h, ¬ Completed leaseId generation h c ∧ c.Covers b

/-- The frontier after a history. -/
structure Follows (leaseId generation start stop : ℕ) (h : List FrontierCall)
    (f : LeaseFrontier) : Prop where
  leaseId_eq : f.leaseId = leaseId
  generation_eq : f.generation = generation
  start_eq : f.start = start
  stop_eq : f.stop = stop
  acknowledged : ∀ b, b ∈ f.acknowledged ↔ Acked leaseId generation h b
  outstanding : ∀ b, b ∈ f.outstanding ↔ InFlight leaseId generation h b

/-- A chunk of the lease passes the assertion, and its end fits. -/
theorem step_inside {f : LeaseFrontier} (hstop : f.stop < u64Max) {c : WriteChunk}
    (hc : 0 < c.len ∧ f.start ≤ c.offset ∧ c.offset + c.len ≤ f.stop + 1) :
    f.insideLease c = true ∧ ∃ n, c.last = some n := by
  obtain ⟨hlen, hlow, hhigh⟩ := hc
  constructor
  · rw [LeaseFrontier.insideLease, saturatingAdd_eq (by omega), saturatingAdd_eq hstop]
    simp [hlen, hlow, hhigh]
  · exact ⟨_, by rw [WriteChunk.last, u64Add_eq (by omega), Option.bind_some, u64Sub_eq (by omega)]⟩

/-- The bytes of a chunk, counted with the last one included. -/
theorem covers_iff {c : WriteChunk} (hlen : 0 < c.len) (b : ℕ) :
    c.offset ≤ b ∧ b ≤ c.offset + c.len - 1 ↔ c.Covers b := by
  unfold WriteChunk.Covers
  omega

theorem acked_append (call : FrontierCall) (b : ℕ) :
    Acked leaseId generation (h ++ [call]) b ↔
      Acked leaseId generation h b ∨ Acked leaseId generation [call] b := by
  simp only [Acked, Succeeded, ownCompletions_append, List.mem_append, or_and_right, exists_or]

/-- A submission adds the bytes of its chunk to what is in flight. -/
theorem inFlight_submission (hh : History leaseId generation start stop h) {c : WriteChunk}
    (hnext : MayFollow leaseId generation start stop h (.recordSubmission c)) (b : ℕ) :
    InFlight leaseId generation (h ++ [.recordSubmission c]) b ↔
      InFlight leaseId generation h b ∨ c.Covers b := by
  have hown : ownCompletions leaseId generation (h ++ [.recordSubmission c]) =
      ownCompletions leaseId generation h := by
    rw [ownCompletions_append]
    exact List.append_nil _
  -- the new chunk is not among the old ones, so none of its completions came before
  have hfresh : ¬ Completed leaseId generation h c := fun hdone =>
    hnext.2 c (hh.submitted hdone) c.offset ⟨le_rfl, by have := hnext.1.1; omega⟩
      ⟨le_rfl, by have := hnext.1.1; omega⟩
  have hlast : submittedChunks [.recordSubmission c] = [c] := rfl
  simp only [InFlight, Completed, hown, submittedChunks_append, hlast, List.mem_append,
    List.mem_singleton]
  constructor
  · rintro ⟨d, hd | rfl, hno, hb⟩
    · exact .inl ⟨d, hd, hno, hb⟩
    · exact .inr hb
  · rintro (⟨d, hd, hno, hb⟩ | hb)
    · exact ⟨d, .inl hd, hno, hb⟩
    · exact ⟨c, .inr rfl, hfresh, hb⟩

/-- A completion takes the bytes of its chunk out of what is in flight. -/
theorem inFlight_completion (hh : History leaseId generation start stop h) {c : WriteChunk}
    (hc : c ∈ submittedChunks h) (success : Bool) (b : ℕ) :
    InFlight leaseId generation (h ++ [.recordCompletion leaseId generation c success]) b ↔
      InFlight leaseId generation h b ∧ ¬ c.Covers b := by
  have hsub : submittedChunks (h ++ [.recordCompletion leaseId generation c success]) =
      submittedChunks h := by
    rw [submittedChunks_append]
    exact List.append_nil _
  have hdone : ∀ d, Completed leaseId generation
      (h ++ [.recordCompletion leaseId generation c success]) d ↔
        Completed leaseId generation h d ∨ d = c := by
    intro d
    simp only [Completed, ownCompletions_append, ownCompletions_own, List.mem_append,
      List.mem_singleton, Prod.mk.injEq, exists_or]
    simp
  simp only [InFlight, hsub, hdone, not_or]
  constructor
  · rintro ⟨d, hd, ⟨hno, hne⟩, hb⟩
    exact ⟨⟨d, hd, hno, hb⟩, fun hbc => hne (hh.same hd hc hb hbc)⟩
  · rintro ⟨⟨d, hd, hno, hb⟩, hout⟩
    exact ⟨d, hd, ⟨hno, fun he => hout (he ▸ hb)⟩, hb⟩

section Step

variable {f : LeaseFrontier} {c : WriteChunk}
  (hf : Follows leaseId generation start stop h f) (hstop : stop < u64Max)
  (hh : History leaseId generation start stop h)

include hf hstop hh

theorem Follows.submission
    (hnext : MayFollow leaseId generation start stop h (.recordSubmission c)) :
    f.step (.recordSubmission c) = some (f.recordSubmission c.offset c.len) ∧
      Follows leaseId generation start stop (h ++ [.recordSubmission c])
        (f.recordSubmission c.offset c.len) := by
  obtain ⟨rfl, rfl, rfl, rfl, hack, hout⟩ := hf
  obtain ⟨hin, n, hlast⟩ := step_inside hstop hnext.1
  refine ⟨by simp only [LeaseFrontier.step, hin, hlast, if_true, Option.map_some],
    rfl, rfl, rfl, rfl, fun b => ?_, fun b => ?_⟩
  · rw [acked_append]
    refine (hack b).trans (or_iff_left ?_).symm
    rintro ⟨d, hd, -⟩
    cases hd
  · rw [inFlight_submission hh hnext, ← hout b, ← covers_iff hnext.1.1 b]
    exact IntervalSet.mem_insert

/-- A completion of the lease itself, for the first time or again. -/
theorem Follows.completion (hc : c ∈ submittedChunks h) (success : Bool) :
    f.step (.recordCompletion leaseId generation c success) =
        some (f.recordCompletion leaseId generation c.offset c.len success).2 ∧
      Follows leaseId generation start stop
        (h ++ [.recordCompletion leaseId generation c success])
        (f.recordCompletion leaseId generation c.offset c.len success).2 := by
  obtain ⟨rfl, rfl, rfl, rfl, hack, hout⟩ := hf
  have hinside := hh.inside hc
  obtain ⟨hin, n, hlast⟩ := step_inside hstop hinside
  have hfresh : ¬ (f.leaseId ≠ f.leaseId ∨ f.generation ≠ f.generation) := by simp
  have hleft : ∀ b, b ∈ f.outstanding.subtract c.offset (c.offset + c.len - 1) ↔
      InFlight f.leaseId f.generation
        (h ++ [.recordCompletion f.leaseId f.generation c success]) b := by
    intro b
    rw [inFlight_completion hh hc, ← hout b, ← covers_iff hinside.1 b]
    exact IntervalSet.mem_subtract
  refine ⟨by simp only [LeaseFrontier.step, if_neg hfresh, hin, hlast, if_true, Option.map_some],
    ?_⟩
  rcases success with - | -
  · simp only [LeaseFrontier.recordCompletion, if_neg hfresh]
    refine ⟨rfl, rfl, rfl, rfl, fun b => ?_, hleft⟩
    rw [acked_append]
    refine (hack b).trans (or_iff_left ?_).symm
    rintro ⟨d, hd, -⟩
    rw [Succeeded, ownCompletions_own, List.mem_singleton] at hd
    cases (Prod.mk.inj hd).2
  · simp only [LeaseFrontier.recordCompletion, if_neg hfresh]
    refine ⟨rfl, rfl, rfl, rfl, fun b => ?_, hleft⟩
    have hone : Acked f.leaseId f.generation
        [.recordCompletion f.leaseId f.generation c true] b ↔ c.Covers b := by
      simp [Acked, Succeeded, ownCompletions_own]
    rw [acked_append, hone, ← hack b, ← covers_iff hinside.1 b]
    exact IntervalSet.mem_insert

omit hstop hh in
theorem Follows.stale {i g : ℕ} (hstale : ¬ (i = leaseId ∧ g = generation)) (c : WriteChunk)
    (success : Bool) :
    f.step (.recordCompletion i g c success) = some f ∧
      Follows leaseId generation start stop (h ++ [.recordCompletion i g c success]) f := by
  obtain ⟨rfl, rfl, rfl, rfl, hack, hout⟩ := hf
  have hsub : submittedChunks (h ++ [.recordCompletion i g c success]) = submittedChunks h := by
    rw [submittedChunks_append]
    exact List.append_nil _
  refine ⟨if_pos (not_and_or.mp hstale), rfl, rfl, rfl, rfl, fun b => ?_, fun b => ?_⟩
  · rw [hack b]
    simp only [Acked, Succeeded, ownCompletions_append, ownCompletions_stale hstale,
      List.append_nil]
  · rw [hout b]
    simp only [InFlight, Completed, hsub, ownCompletions_append, ownCompletions_stale hstale,
      List.append_nil]

/-- **Every call that may follow keeps the invariant, and none panics.** -/
theorem Follows.step {call : FrontierCall}
    (hnext : MayFollow leaseId generation start stop h call) :
    ∃ f', f.step call = some f' ∧ Follows leaseId generation start stop (h ++ [call]) f' := by
  rcases call with c | ⟨i, g, c, success⟩
  · exact ⟨_, hf.submission hstop hh hnext⟩
  · by_cases hown : i = leaseId ∧ g = generation
    · obtain ⟨rfl, rfl⟩ := hown
      exact ⟨_, hf.completion hstop hh (hnext ⟨rfl, rfl⟩) success⟩
    · exact ⟨_, hf.stale hown c success⟩

end Step

theorem Follows.new :
    Follows leaseId generation start stop [] (.new leaseId generation start stop) := by
  refine ⟨rfl, rfl, rfl, rfl, fun b => ?_, fun b => ?_⟩
  · refine ⟨fun hb => absurd hb (IntervalSet.not_mem_new b), ?_⟩
    rintro ⟨d, hd, -⟩
    cases hd
  · refine ⟨fun hb => absurd hb (IntervalSet.not_mem_new b), ?_⟩
    rintro ⟨d, hd, -⟩
    cases hd

/-- A history runs to its end. -/
theorem History.run (hh : History leaseId generation start stop h) (hstop : stop < u64Max) :
    ∃ f, runEvents LeaseFrontier.step (.new leaseId generation start stop) h = some f ∧
      Follows leaseId generation start stop h f := by
  induction hh with
  | nil => exact ⟨_, rfl, .new⟩
  | @snoc h call hh hnext ih =>
    obtain ⟨f, hrun, hf⟩ := ih
    obtain ⟨f', hstep, hf'⟩ := hf.step hstop hh hnext
    refine ⟨f', ?_, hf'⟩
    rw [runEvents_append, hrun, Option.bind_some, runEvents, hstep, Option.bind_some]
    rfl

/-! ### What is published -/

/-- The least offset from the lease's start on that no successful chunk
covers. -/
def PublishedThrough (leaseId generation start : ℕ) (h : List FrontierCall) (n : ℕ) : Prop :=
  IsLeast {b | start ≤ b ∧ ¬ Acked leaseId generation h b} n

/-- What is acknowledged has been written without a gap, from the start of the
lease. -/
theorem Follows.published {f : LeaseFrontier} (hf : Follows leaseId generation start stop h f)
    (hh : History leaseId generation start stop h) (hord : start ≤ stop) :
    PublishedThrough leaseId generation start h f.acknowledgedThrough := by
  -- nothing past the lease was submitted, so the search ends inside its window
  have hend : stop + 1 ∉ f.acknowledged := by
    rw [hf.acknowledged]
    rintro ⟨c, hc, hb⟩
    have := hh.inside (hh.submitted ⟨true, hc⟩)
    unfold WriteChunk.Covers at hb
    omega
  obtain ⟨rfl, rfl, rfl, rfl, hack, -⟩ := hf
  rcases e : f.acknowledged.firstGapFrom f.start (f.stop + 1) with - | g
  · exact absurd (IntervalSet.mem_of_firstGapFrom_none e ⟨by omega, le_rfl⟩) hend
  · have hg : f.acknowledgedThrough = g := by rw [LeaseFrontier.acknowledgedThrough, e]; rfl
    obtain ⟨hlow, hgap⟩ := IntervalSet.not_mem_firstGapFrom e
    rw [hg]
    refine ⟨⟨hlow, fun hb => hgap ((hack g).mpr hb)⟩, fun b hb => ?_⟩
    by_contra hlt
    exact hb.2 ((hack b).mp (IntervalSet.mem_of_firstGapFrom e ⟨hb.1, not_le.mp hlt⟩))

/-- More successes, a later gap. -/
theorem PublishedThrough.mono {h' : List FrontierCall} {n n' : ℕ}
    (hn : PublishedThrough leaseId generation start h n)
    (hn' : PublishedThrough leaseId generation start h' n')
    (hsub : ∀ b, Acked leaseId generation h b → Acked leaseId generation h' b) : n ≤ n' :=
  hn.2 ⟨hn'.1.1, fun hb => hn'.1.2 (hsub _ hb)⟩

/-- Acknowledgements depend on which calls were made, not on their order. -/
theorem acked_of_subset {h' : List FrontierCall} (hsub : h ⊆ h') {b : ℕ}
    (hb : Acked leaseId generation h b) : Acked leaseId generation h' b := by
  obtain ⟨c, hc, hcov⟩ := hb
  exact ⟨c, List.filterMap_subset _ hsub hc, hcov⟩

theorem inFlight_of_perm {h' : List FrontierCall} (hperm : h.Perm h') {b : ℕ}
    (hb : InFlight leaseId generation h b) : InFlight leaseId generation h' b := by
  obtain ⟨c, hc, hno, hcov⟩ := hb
  refine ⟨c, List.filterMap_subset _ hperm.subset hc, ?_, hcov⟩
  rintro ⟨success, hdone⟩
  exact hno ⟨success, List.filterMap_subset _ hperm.symm.subset hdone⟩

/-- **The write frontier over whole histories.**  Every history runs without a
panic.  The published offset is the least one that no successful chunk covers;
it never goes back as the history goes on, and any other order of the same
calls publishes the same offset.  What is outstanding is what was submitted
and did not complete. -/
theorem frontier_history (hord : start ≤ stop) (hstop : stop < u64Max)
    (hh : History leaseId generation start stop h) :
    ∃ f, runEvents LeaseFrontier.step (.new leaseId generation start stop) h = some f ∧
      (∀ b, b ∈ f.outstanding ↔ InFlight leaseId generation h b) ∧
      ∃ n, f.acknowledgedThrough64 = some n ∧ PublishedThrough leaseId generation start h n ∧
        (∀ h' f', History leaseId generation start stop (h ++ h') →
          runEvents LeaseFrontier.step (.new leaseId generation start stop) (h ++ h') = some f' →
          ∃ n', f'.acknowledgedThrough64 = some n' ∧ n ≤ n') ∧
        ∀ h' f', History leaseId generation start stop h' → h.Perm h' →
          runEvents LeaseFrontier.step (.new leaseId generation start stop) h' = some f' →
          f'.acknowledgedThrough64 = some n ∧ ∀ b, b ∈ f'.outstanding ↔ b ∈ f.outstanding := by
  -- what holds of any history of the lease
  have hpub : ∀ {h f}, History leaseId generation start stop h →
      runEvents LeaseFrontier.step (.new leaseId generation start stop) h = some f →
      Follows leaseId generation start stop h f ∧
        f.acknowledgedThrough64 = some f.acknowledgedThrough ∧
        PublishedThrough leaseId generation start h f.acknowledgedThrough := by
    intro h f hh hrun
    obtain ⟨f', hrun', hf⟩ := hh.run hstop
    obtain rfl : f' = f := Option.some.inj (hrun'.symm.trans hrun)
    exact ⟨hf, LeaseFrontier.acknowledgedThrough64_eq (hf.stop_eq ▸ hstop), hf.published hh hord⟩
  obtain ⟨f, hrun, hf⟩ := hh.run hstop
  obtain ⟨-, hthrough, hleast⟩ := hpub hh hrun
  refine ⟨f, hrun, hf.outstanding, _, hthrough, hleast, fun h' f' hh' hrun' => ?_,
    fun h' f' hh' hperm hrun' => ?_⟩
  · obtain ⟨-, hthrough', hleast'⟩ := hpub hh' hrun'
    exact ⟨_, hthrough', hleast.mono hleast' fun b =>
      acked_of_subset (List.subset_append_left h h')⟩
  · obtain ⟨hf', hthrough', hleast'⟩ := hpub hh' hrun'
    have heq : f'.acknowledgedThrough = f.acknowledgedThrough :=
      le_antisymm (hleast'.mono hleast fun b => acked_of_subset hperm.symm.subset)
        (hleast.mono hleast' fun b => acked_of_subset hperm.subset)
    refine ⟨hthrough'.trans (congrArg some heq), fun b => ?_⟩
    rw [hf'.outstanding, hf.outstanding]
    exact ⟨inFlight_of_perm hperm.symm, inFlight_of_perm hperm⟩

end History

/-- The later of two chunks completes first, and a stale completion comes in
between. -/
def crossedHistory : List FrontierCall :=
  [.recordSubmission ⟨0, 4⟩, .recordSubmission ⟨4, 4⟩, .recordCompletion 1 1 ⟨4, 4⟩ true,
    .recordCompletion 1 2 ⟨0, 4⟩ true]

/-- The outstanding bytes are those in flight, also where completions cross. -/
theorem frontier_history_crossed :
    History 1 1 0 7 crossedHistory ∧
      ∃ f, runEvents LeaseFrontier.step (.new 1 1 0 7) crossedHistory = some f ∧
        ∀ b, b ∈ f.outstanding ↔ InFlight 1 1 crossedHistory b := by
  have hh : History 1 1 0 7 crossedHistory := by
    refine .snoc (h := [_, _, _]) (.snoc (h := [_, _]) (.snoc (h := [_]) (.snoc (h := []) .nil ?_) ?_)
      ?_) ?_
    · exact ⟨by decide, fun c hc => by cases hc⟩
    · refine ⟨by decide, fun c hc b hb hb' => ?_⟩
      obtain rfl : c = ⟨0, 4⟩ := List.mem_singleton.mp hc
      unfold WriteChunk.Covers at hb hb'
      simp only at hb hb'
      omega
    · exact fun _ => by decide
    · exact fun hno => absurd hno.2 (by decide)
  obtain ⟨f, hrun, hout, -⟩ := frontier_history (by decide) (by decide) hh
  exact ⟨hh, f, hrun, hout⟩

end KDown
