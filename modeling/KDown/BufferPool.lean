/-
KDown/BufferPool.lean

The bounded pool of byte buffers (io/buffer_pool.rs), with any number of
concurrent users.

A buffer is idle, or in use.  `try_acquire` and the fast path of `acquire` look
for room under the lock under which they take a buffer.  An `acquire` that finds
none looks again in a blocking task, and takes its buffer later, under another
lock and without a look: two that have seen the same buffer come back both get
one, and the pool has one more than its budget.

`pool_budget_iff` says that this is the only way: the budget is kept in a run
exactly if nobody who has waited takes from an exhausted pool.
-/
import KDown.Runs
import Mathlib.Algebra.Order.Ring.Nat
import Mathlib.Data.List.Basic

namespace KDown

/-- The configuration of a pool. -/
structure BufferPool where
  bufferSize : ℕ
  maxBuffers : ℕ

/-- The budget in bytes is rounded down to buffers, and up to one. -/
def BufferPool.new (bufferSize maxTotalBytes : ℕ) : BufferPool where
  bufferSize := max bufferSize 1
  maxBuffers := max (maxTotalBytes / max bufferSize 1) 1

/-- The state under the lock, the buffers in use, and the calls of `acquire`
that wait or have waited. -/
structure BufferPoolState where
  idle : List (List UInt8)
  allocated : ℕ
  held : List (List UInt8)
  blocked : ℕ
  woken : ℕ

/-- A call on the pool begins or goes on, or a buffer comes back. -/
inductive BufferPoolEvent
  | tryAcquire
  /-- The first look of `acquire`. -/
  | acquire
  /-- The blocking task finds room. -/
  | wake
  /-- The call takes the buffer it has waited for. -/
  | resume
  /-- The future of a call that has waited is dropped. -/
  | abandon
  | fill (i : ℕ) (bytes : List UInt8)
  | freeze (i : ℕ)
  | drop (i : ℕ)

namespace BufferPoolState

/-- No buffer is allocated. -/
def empty : BufferPoolState := ⟨[], 0, [], 0, 0⟩

/-- At its budget, with nothing idle. -/
def exhausted (pool : BufferPool) (s : BufferPoolState) : Bool :=
  s.idle.isEmpty && pool.maxBuffers ≤ s.allocated

/-- An idle buffer with what its last user left in it, or a new one. -/
def acquireInner (s : BufferPoolState) : BufferPoolState :=
  match s.idle with
  | buf :: idle => { s with idle := idle, held := buf :: s.held }
  | [] => { s with allocated := s.allocated + 1, held := [] :: s.held }

/-- The buffer is kept for reuse, if there is room for it. -/
def release (pool : BufferPool) (s : BufferPoolState) (buf : List UInt8) : BufferPoolState :=
  if s.idle.length < pool.maxBuffers then { s with idle := buf :: s.idle }
  else { s with allocated := s.allocated - 1 }

/-- One event. -/
def step (pool : BufferPool) (s : BufferPoolState) : BufferPoolEvent → Option BufferPoolState
  | .tryAcquire => if s.exhausted pool then none else some s.acquireInner
  | .acquire =>
      some (if s.exhausted pool then { s with blocked := s.blocked + 1 } else s.acquireInner)
  | .wake =>
      if s.blocked = 0 ∨ s.exhausted pool then none
      else some { s with blocked := s.blocked - 1, woken := s.woken + 1 }
  | .resume => if s.woken = 0 then none else some { s.acquireInner with woken := s.woken - 1 }
  | .abandon => if s.woken = 0 then none else some { s with woken := s.woken - 1 }
  | .fill i bytes => some { s with held := s.held.modify i (· ++ bytes) }
  | .freeze i => some { s with held := s.held.modify i fun _ => [] }
  | .drop i =>
      (s.held[i]?).map fun buf =>
        ({ s with held := s.held.eraseIdx i } : BufferPoolState).release pool buf

/-- The lock finds room for whoever has waited. -/
def Roomy (pool : BufferPool) (s : BufferPoolState) : BufferPoolEvent → Prop
  | .resume => s.exhausted pool = false
  | _ => True

/-- Every buffer is idle or in use, and no more are idle than the budget allows. -/
structure Inv (pool : BufferPool) (s : BufferPoolState) : Prop where
  count : s.allocated = s.idle.length + s.held.length
  idle_le : s.idle.length ≤ pool.maxBuffers

variable {pool : BufferPool} {s s' : BufferPoolState}

theorem Inv.empty : Inv pool .empty := ⟨rfl, Nat.zero_le _⟩

/-- What an acquisition looks at before it waits. -/
theorem exhausted_iff : s.exhausted pool = true ↔ s.idle = [] ∧ pool.maxBuffers ≤ s.allocated := by
  rw [exhausted, Bool.and_eq_true, List.isEmpty_iff, decide_eq_true_iff]

/-- A buffer is taken from the pool, and the pool grows where it has none. -/
theorem Inv.acquireInner (h : s.Inv pool) : s.acquireInner.Inv pool ∧
    s.acquireInner.allocated = if s.idle = [] then s.allocated + 1 else s.allocated := by
  obtain ⟨hcount, hidle⟩ := h
  rw [BufferPoolState.acquireInner]
  cases hs : s.idle with
  | nil =>
    rw [hs, List.length_nil] at hcount
    refine ⟨⟨?_, Nat.zero_le _⟩, by rw [if_pos rfl]⟩
    show s.allocated + 1 = 0 + (s.held.length + 1)
    omega
  | cons buf idle =>
    rw [hs, List.length_cons] at hcount hidle
    refine ⟨⟨?_, ?_⟩, by rw [if_neg (List.cons_ne_nil _ _)]⟩
    · show s.allocated = idle.length + (s.held.length + 1)
      omega
    · show idle.length ≤ _
      omega

theorem Inv.drop (h : s.Inv pool) {i : ℕ} (hs : step pool s (.drop i) = some s') :
    s'.Inv pool ∧ s'.allocated ≤ s.allocated := by
  obtain ⟨buf, hbuf, rfl⟩ := Option.map_eq_some_iff.mp hs
  obtain ⟨hcount, hidle⟩ := h
  have hlt := (List.getElem?_eq_some_iff.mp hbuf).1
  have herase := List.length_eraseIdx_of_lt hlt
  rw [release]
  split_ifs with hroom
  · refine ⟨⟨?_, hroom⟩, le_refl _⟩
    show s.allocated = (s.idle.length + 1) + (s.held.eraseIdx i).length
    omega
  · refine ⟨⟨?_, hidle⟩, Nat.sub_le _ _⟩
    show s.allocated - 1 = s.idle.length + (s.held.eraseIdx i).length
    omega

/-- What a step does to the number of buffers. -/
theorem Inv.step (h : s.Inv pool) {e : BufferPoolEvent} (hs : step pool s e = some s') :
    s'.Inv pool ∧ (s'.allocated ≤ max s.allocated pool.maxBuffers ∨
      e = .resume ∧ s.exhausted pool = true ∧ s'.allocated = s.allocated + 1) := by
  have htaken := h.acquireInner
  have hroomy : s.exhausted pool = false →
      s.acquireInner.allocated ≤ max s.allocated pool.maxBuffers := by
    intro hroom
    rw [htaken.2]
    split_ifs with hidle
    · by_contra hlt
      rw [← Bool.not_eq_true, exhausted_iff] at hroom
      exact hroom ⟨hidle, by omega⟩
    · exact le_max_left _ _
  cases e with
  | tryAcquire =>
    rw [BufferPoolState.step] at hs
    split_ifs at hs with hexhausted
    cases hs
    exact ⟨htaken.1, .inl (hroomy (Bool.eq_false_iff.mpr hexhausted))⟩
  | acquire =>
    rw [BufferPoolState.step] at hs
    cases hs
    split_ifs with hexhausted
    · exact ⟨⟨h.count, h.idle_le⟩, .inl (le_max_left _ _)⟩
    · exact ⟨htaken.1, .inl (hroomy (Bool.eq_false_iff.mpr hexhausted))⟩
  | wake =>
    rw [BufferPoolState.step] at hs
    split_ifs at hs
    cases hs
    exact ⟨⟨h.count, h.idle_le⟩, .inl (le_max_left _ _)⟩
  | resume =>
    rw [BufferPoolState.step] at hs
    split_ifs at hs
    cases hs
    refine ⟨⟨htaken.1.count, htaken.1.idle_le⟩, ?_⟩
    rcases hexhausted : s.exhausted pool with - | -
    · exact .inl (hroomy hexhausted)
    · refine .inr ⟨rfl, rfl, ?_⟩
      show s.acquireInner.allocated = s.allocated + 1
      rw [htaken.2, if_pos (exhausted_iff.mp hexhausted).1]
  | abandon =>
    rw [BufferPoolState.step] at hs
    split_ifs at hs
    cases hs
    exact ⟨⟨h.count, h.idle_le⟩, .inl (le_max_left _ _)⟩
  | fill i bytes =>
    cases hs
    refine ⟨⟨?_, h.idle_le⟩, .inl (le_max_left _ _)⟩
    show s.allocated = s.idle.length + (s.held.modify i (· ++ bytes)).length
    rw [List.length_modify, h.count]
  | freeze i =>
    cases hs
    refine ⟨⟨?_, h.idle_le⟩, .inl (le_max_left _ _)⟩
    show s.allocated = s.idle.length + (s.held.modify i fun _ => []).length
    rw [List.length_modify, h.count]
  | drop i =>
    have hdrop := h.drop hs
    exact ⟨hdrop.1, .inl (le_trans hdrop.2 (le_max_left _ _))⟩

theorem Inv.run (h : s.Inv pool) {es : List BufferPoolEvent}
    (hrun : runEvents (BufferPoolState.step pool) s es = some s') : s'.Inv pool :=
  runEvents_invariant (I := fun _ t => t.Inv pool) h
    (fun _ _ _ _ _ hinv hstep => (hinv.step hstep).1) hrun

/-- A step loses the budget exactly where an exhausted pool is taken from. -/
theorem Inv.budget_step (h : s.Inv pool) {e : BufferPoolEvent}
    (hbudget : s.allocated ≤ pool.maxBuffers) (hs : BufferPoolState.step pool s e = some s') :
    s'.allocated ≤ pool.maxBuffers ↔ Roomy pool s e := by
  rcases (h.step hs).2 with hle | ⟨rfl, hexhausted, hgrows⟩
  · refine iff_of_true (by omega) ?_
    cases e with
    | resume =>
      show s.exhausted pool = false
      by_contra hexhausted
      rw [Bool.not_eq_false] at hexhausted
      -- then a buffer beyond the budget would have been allocated
      obtain ⟨hidle, hfull⟩ := exhausted_iff.mp hexhausted
      have hgrows := h.acquireInner.2
      rw [if_pos hidle] at hgrows
      rw [BufferPoolState.step] at hs
      split_ifs at hs
      cases hs
      have hsame : s.acquireInner.allocated ≤ max s.allocated pool.maxBuffers := hle
      omega
    | _ => trivial
  · refine iff_of_false (fun hle => ?_) fun hroom : s.exhausted pool = false => ?_
    · have hfull := (exhausted_iff.mp hexhausted).2
      omega
    · rw [hroom] at hexhausted
      cases hexhausted

/-- **The budget of a pool**: every buffer is idle or in use, with no more idle
than the budget allows.  The pool keeps to its budget throughout a run exactly if
nobody who has waited takes from an exhausted pool; and it is back within it when
no buffer is in use. -/
theorem pool_budget_iff {es : List BufferPoolEvent}
    (hrun : runEvents (BufferPoolState.step pool) .empty es = some s) :
    ((∀ es' t, es' <+: es → runEvents (BufferPoolState.step pool) .empty es' = some t →
        t.allocated ≤ pool.maxBuffers) ↔
      runOk (BufferPoolState.step pool) (Roomy pool) .empty es) ∧
      s.allocated = s.idle.length + s.held.length ∧
      s.idle.length ≤ pool.maxBuffers ∧
      (s.held = [] → s.allocated ≤ pool.maxBuffers) := by
  have hinv := Inv.empty.run hrun
  refine ⟨forall_isPrefix_iff_runOk (I := BufferPoolState.Inv pool)
    (fun _ _ _ h hs => (h.step hs).1) (fun _ _ _ h hbudget hs => h.budget_step hbudget hs) .empty (Nat.zero_le _) hrun,
    hinv.count, hinv.idle_le, fun hheld => ?_⟩
  have hcount := hinv.count
  rw [hheld, List.length_nil] at hcount
  rw [hcount]
  exact hinv.idle_le

/-- The pool of one buffer, two calls that wait for it, and its return. -/
def twoWaiters : List BufferPoolEvent :=
  [.tryAcquire, .acquire, .acquire, .drop 0, .wake, .wake, .resume, .resume]

/-- **Two waiters exceed the budget**: each of them allocates when it wakes. -/
theorem pool_budget_iff_twoWaiters : ∃ s,
    runEvents (BufferPoolState.step (.new 4096 4096)) .empty twoWaiters = some s ∧
      s.allocated = 2 ∧
      ¬ runOk (BufferPoolState.step (.new 4096 4096)) (Roomy (.new 4096 4096)) .empty
        twoWaiters := by
  obtain ⟨s, hs, hallocated⟩ : ∃ s,
      runEvents (BufferPoolState.step (.new 4096 4096)) .empty twoWaiters = some s ∧
        s.allocated = 2 := ⟨_, rfl, rfl⟩
  refine ⟨s, hs, hallocated, fun hok => ?_⟩
  have hbudget := (pool_budget_iff hs).1.mpr hok twoWaiters s (List.prefix_refl _) hs
  rw [hallocated] at hbudget
  exact absurd hbudget (by decide)

end BufferPoolState

end KDown
