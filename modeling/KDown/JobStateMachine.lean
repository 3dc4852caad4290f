/-
KDown/JobStateMachine.lean

The lifecycle of a job (job/state.rs): the graph of its states and the state
machine that many threads move at once.

`transition` loads the state, validates the edge from what it loaded, and
stores.  The load and the store are two atomic accesses, so a call is a little
program of its own here, and any number of calls run side by side.  A ghost
component records every store, with the value it overwrote.

* `stale_store_leaves_terminal`: a call that loaded the state before it was
  cancelled stores after it, and the job leaves its terminal state.
* `transitions_follow_graph`: while every store finds the value its call
  loaded, the values taken are a path in the graph, every accepted call has
  gone one edge, and terminal states latch.
-/
import KDown.Runs
import Mathlib.Data.List.Chain
import Mathlib.Data.Nat.Notation
import Mathlib.Logic.Function.Basic

namespace KDown

/-- Job states in lifecycle order. -/
inductive JobState
  | created
  | probing
  | preparing
  | running
  | pausing
  | paused
  | resuming
  | verifying
  | committing
  | cancelling
  | failing
  | completed
  | cancelled
  | failed
  deriving DecidableEq, Repr

namespace JobState

/-- The states that no edge leaves. -/
def isTerminal : JobState → Bool
  | completed => true
  | cancelled => true
  | failed => true
  | _ => false

/-- The ordinal the atomic cell holds. -/
def toU8 : JobState → UInt8
  | created => 0
  | probing => 1
  | preparing => 2
  | running => 3
  | pausing => 4
  | paused => 5
  | resuming => 6
  | verifying => 7
  | committing => 8
  | cancelling => 9
  | failing => 10
  | completed => 11
  | cancelled => 12
  | failed => 13

/-- The state of an ordinal. -/
def ofU8 (ordinal : UInt8) : JobState :=
  if ordinal = 0 then created
  else if ordinal = 1 then probing
  else if ordinal = 2 then preparing
  else if ordinal = 3 then running
  else if ordinal = 4 then pausing
  else if ordinal = 5 then paused
  else if ordinal = 6 then resuming
  else if ordinal = 7 then verifying
  else if ordinal = 8 then committing
  else if ordinal = 9 then cancelling
  else if ordinal = 10 then failing
  else if ordinal = 11 then completed
  else if ordinal = 12 then cancelled
  else failed

@[simp] theorem ofU8_toU8 (x : JobState) : ofU8 x.toU8 = x := by
  cases x <;> rfl

/-- Allowed edges of the graph. -/
def allowed : JobState → JobState → Bool
  -- forward pipeline
  | created, probing => true
  | created, failing => true
  | created, cancelling => true
  | probing, preparing => true
  -- single-stream fast path
  | probing, running => true
  | probing, failing => true
  | probing, cancelling => true
  | preparing, running => true
  | preparing, failing => true
  | preparing, cancelling => true
  | running, pausing => true
  | running, verifying => true
  | running, failing => true
  | running, cancelling => true
  | paused, resuming => true
  | paused, cancelling => true
  | paused, failing => true
  | resuming, running => true
  | resuming, failing => true
  | resuming, cancelling => true
  | pausing, paused => true
  | pausing, cancelling => true
  | pausing, failing => true
  | verifying, committing => true
  | verifying, failing => true
  | verifying, cancelling => true
  | committing, completed => true
  | committing, failing => true
  -- terminal entries from the cancel and fail paths
  | cancelling, cancelled => true
  | failing, failed => true
  | _, _ => false

theorem not_allowed_of_isTerminal {x y : JobState} (h : x.isTerminal = true) :
    allowed x y = false := by
  cases x <;> first | cases h; done | rfl

end JobState

/-- The refusal of an edge. -/
structure InvalidTransition where
  fromState : JobState
  toState : JobState
  deriving DecidableEq, Repr

/-- What a thread may call. -/
inductive StateCall
  | transition (target : JobState)
  | fail
  | cancel
  deriving DecidableEq, Repr

/-- Where a call that changes the state stands. -/
inductive StateCallPhase
  | unused
  /-- About to load, for an edge to `target`; `orElse` is tried when that one is
  refused. -/
  | loading (target : JobState) (orElse : Option JobState)
  /-- The edge from what was loaded is allowed; about to store. -/
  | storing (loaded target : JobState)
  | ok
  | err (error : InvalidTransition)
  deriving DecidableEq, Repr

/-- The value a call about to store has loaded. -/
def StateCallPhase.loaded : StateCallPhase → Option JobState
  | .storing loaded _ => some loaded
  | _ => none

/-- `fail` and `cancel` try the terminal hop when the first edge is refused. -/
def StateCall.begin : StateCall → StateCallPhase
  | .transition target => .loading target none
  | .fail => .loading .failing (some .failed)
  | .cancel => .loading .cancelling (some .cancelled)

/-- A call begins, loads or stores. -/
inductive StateEvent
  | call (c : ℕ) (op : StateCall)
  | load (c : ℕ)
  | store (c : ℕ)
  deriving DecidableEq, Repr

/-- The cell of the job's state and the calls on it. -/
structure StateMachine where
  state : UInt8
  calls : ℕ → StateCallPhase
  /-- Every store: the call, the value it overwrote and the value it wrote. -/
  edges : List (ℕ × JobState × JobState)

namespace StateMachine

variable {s s' : StateMachine}

/-- A machine in its first state. -/
def new : StateMachine where
  state := JobState.created.toU8
  calls := fun _ => .unused
  edges := []

/-- The state that is stored. -/
def get (s : StateMachine) : JobState := .ofU8 s.state

/-- An edge is refused. -/
def refuse (loaded target : JobState) : Option JobState → StateCallPhase
  | none => .err ⟨loaded, target⟩
  | some next => .loading next none

/-- What `transition` does with the value it loaded. -/
def validate (loaded target : JobState) (orElse : Option JobState) : StateCallPhase :=
  if loaded.isTerminal then refuse loaded target orElse
  else if JobState.allowed loaded target then .storing loaded target
  else refuse loaded target orElse

/-- One event. -/
def step (s : StateMachine) : StateEvent → Option StateMachine
  | .call c op =>
      if s.calls c = .unused then some { s with calls := Function.update s.calls c op.begin }
      else none
  | .load c =>
      match s.calls c with
      | .loading target orElse =>
          some { s with calls := Function.update s.calls c (validate s.get target orElse) }
      | _ => none
  | .store c =>
      match s.calls c with
      | .storing _ target =>
          some
            { state := target.toU8
              calls := Function.update s.calls c .ok
              edges := s.edges ++ [(c, s.get, target)] }
      | _ => none

/-- The values the state has taken, from the first one on. -/
def values (s : StateMachine) : List JobState := .created :: s.edges.map fun e => e.2.2

/-- The stores of call `c`. -/
def edgesOf (s : StateMachine) (c : ℕ) : List (ℕ × JobState × JobState) :=
  s.edges.filter fun e => e.1 = c

/-- A store finds the value that its call loaded. -/
def Fresh (s : StateMachine) : StateEvent → Prop
  | .store c => ∀ x ∈ (s.calls c).loaded, s.get = x
  | _ => True

instance (s : StateMachine) : ∀ e, Decidable (s.Fresh e)
  | .store c => inferInstanceAs (Decidable (∀ x ∈ (s.calls c).loaded, s.get = x))
  | .call _ _ => .isTrue trivial
  | .load _ => .isTrue trivial

/-! ### What a step does -/

/-- **What one step can be**: a call begins, loads or stores. -/
theorem step_cases {e : StateEvent} (h : s.step e = some s') :
    (∃ c op, e = .call c op ∧ s.calls c = .unused ∧
      s' = { s with calls := Function.update s.calls c op.begin }) ∨
    (∃ c target orElse, e = .load c ∧ s.calls c = .loading target orElse ∧
      s' = { s with calls := Function.update s.calls c (validate s.get target orElse) }) ∨
    ∃ c loaded target, e = .store c ∧ s.calls c = .storing loaded target ∧
      s' = ⟨target.toU8, Function.update s.calls c .ok, s.edges ++ [(c, s.get, target)]⟩ := by
  rcases e with ⟨c, op⟩ | c | c <;> simp only [step] at h
  · split_ifs at h with hc
    exact .inl ⟨c, op, rfl, hc, (Option.some.inj h).symm⟩
  · split at h
    · next target orElse hc => exact .inr (.inl ⟨c, target, orElse, rfl, hc, (Option.some.inj h).symm⟩)
    · cases h
  · split at h
    · next loaded target hc =>
      exact .inr (.inr ⟨c, loaded, target, rfl, hc, (Option.some.inj h).symm⟩)
    · cases h

/-- A call is ready to store, or not done, after its load. -/
theorem validate_cases (loaded target : JobState) (orElse : Option JobState) :
    validate loaded target orElse = .storing loaded target ∧ JobState.allowed loaded target = true ∨
      (∃ next, validate loaded target orElse = .loading next none) ∨
      validate loaded target orElse = .err ⟨loaded, target⟩ := by
  have hrefuse : (∃ next, refuse loaded target orElse = .loading next none) ∨
      refuse loaded target orElse = .err ⟨loaded, target⟩ := by
    rcases orElse with - | next
    · exact .inr rfl
    · exact .inl ⟨next, rfl⟩
  rw [validate]
  split_ifs with hterminal hallowed
  · exact .inr hrefuse
  · exact .inl ⟨rfl, hallowed⟩
  · exact .inr hrefuse

/-! ### The invariant -/

/-- The states stored are a path of the graph, and each call knows its own edge. -/
structure Inv (s : StateMachine) : Prop where
  path : s.values.IsChain fun x y => JobState.allowed x y = true
  last : s.values.getLast? = some s.get
  storing : ∀ c loaded target, s.calls c = .storing loaded target →
    JobState.allowed loaded target = true
  accepted : ∀ c, s.calls c = .ok → ∃ x y, s.edgesOf c = [(c, x, y)] ∧ JobState.allowed x y = true
  /-- A call that is not done has stored nothing. -/
  idle : ∀ c, s.calls c ≠ .ok → s.edgesOf c = []

theorem Inv.new : Inv new where
  path := List.isChain_singleton _
  last := rfl
  storing := fun _ _ _ h => by cases h
  accepted := fun _ h => by cases h
  idle := fun _ _ => rfl

/-- A call moves on without a store. -/
theorem Inv.move (hi : Inv s) {c : ℕ} {ph : StateCallPhase} (hc : s.calls c ≠ .ok) (hok : ph ≠ .ok)
    (hph : ∀ loaded target, ph = .storing loaded target → JobState.allowed loaded target = true) :
    Inv { s with calls := Function.update s.calls c ph } := by
  refine ⟨hi.path, hi.last, fun k loaded target hk => ?_, fun k hk => ?_, fun k hk => ?_⟩
  · by_cases hkc : k = c
    · subst hkc
      exact hph loaded target ((Function.update_self k ph s.calls).symm.trans hk)
    · exact hi.storing k loaded target ((Function.update_of_ne hkc ph s.calls).symm.trans hk)
  · by_cases hkc : k = c
    · subst hkc
      exact absurd ((Function.update_self k ph s.calls).symm.trans hk) hok
    · exact hi.accepted k ((Function.update_of_ne hkc ph s.calls).symm.trans hk)
  · by_cases hkc : k = c
    · subst hkc
      exact hi.idle k hc
    · exact hi.idle k fun hold => hk ((Function.update_of_ne hkc ph s.calls).trans hold)

/-- A store that finds what was loaded adds an edge of the graph. -/
theorem Inv.store (hi : Inv s) {c : ℕ} {loaded target : JobState}
    (hc : s.calls c = .storing loaded target) (hfresh : s.get = loaded) :
    Inv ⟨target.toU8, Function.update s.calls c .ok, s.edges ++ [(c, s.get, target)]⟩ := by
  have hedge : JobState.allowed s.get target = true := by
    rw [hfresh]
    exact hi.storing c loaded target hc
  have hvalues : (⟨target.toU8, Function.update s.calls c .ok, s.edges ++ [(c, s.get, target)]⟩ :
      StateMachine).values = s.values ++ [target] := by
    simp [values]
  have hmine : s.edgesOf c = [] := hi.idle c (by rw [hc]; intro hno; cases hno)
  refine ⟨?_, ?_, fun k l u hk => ?_, fun k hk => ?_, fun k hk => ?_⟩
  · rw [hvalues]
    refine hi.path.append (List.isChain_singleton _) fun x hx y hy => ?_
    rw [hi.last] at hx
    obtain rfl : s.get = x := Option.some.inj hx
    obtain rfl : target = y := Option.some.inj hy
    exact hedge
  · rw [hvalues, List.getLast?_append]
    show some target = some (JobState.ofU8 target.toU8)
    rw [JobState.ofU8_toU8]
  · by_cases hkc : k = c
    · subst hkc
      cases (Function.update_self k StateCallPhase.ok s.calls).symm.trans hk
    · exact hi.storing k l u ((Function.update_of_ne hkc _ s.calls).symm.trans hk)
  · by_cases hkc : k = c
    · subst hkc
      refine ⟨s.get, target, ?_, hedge⟩
      show (s.edges ++ [(k, s.get, target)]).filter _ = _
      rw [List.filter_append, ← edgesOf, hmine]
      simp
    · obtain ⟨x, y, hxy, hallowed⟩ := hi.accepted k ((Function.update_of_ne hkc _ s.calls).symm.trans hk)
      refine ⟨x, y, ?_, hallowed⟩
      show (s.edges ++ [(c, s.get, target)]).filter _ = _
      rw [List.filter_append, ← edgesOf, hxy]
      simp [Ne.symm hkc]
  · by_cases hkc : k = c
    · subst hkc
      exact absurd (Function.update_self k _ s.calls) hk
    · show (s.edges ++ [(c, s.get, target)]).filter _ = _
      rw [List.filter_append, ← edgesOf,
        hi.idle k fun hold => hk ((Function.update_of_ne hkc _ s.calls).trans hold)]
      simp [Ne.symm hkc]

/-- **The invariant is kept** as long as a store finds what its call has loaded. -/
theorem Inv.step (hi : Inv s) {e : StateEvent} (hok : s.Fresh e) (h : s.step e = some s') :
    Inv s' := by
  obtain ⟨c, op, rfl, hc, rfl⟩ | ⟨c, target, orElse, rfl, hc, rfl⟩ |
    ⟨c, loaded, target, rfl, hc, rfl⟩ := step_cases h
  · apply hi.move (by rw [hc]; intro hno; cases hno)
    · rcases op with - | - | - <;> intro hno <;> cases hno
    · rcases op with - | - | - <;> intro loaded target hno <;> cases hno
  · rcases validate_cases s.get target orElse with ⟨heq, hallowed⟩ | ⟨next, heq⟩ | heq <;> rw [heq]
    · apply hi.move (by rw [hc]; intro hno; cases hno) (by intro hno; cases hno)
      intro loaded' target' hsame
      cases hsame
      exact hallowed
    · exact hi.move (by rw [hc]; intro hno; cases hno) (by intro hno; cases hno)
        (by intro _ _ hno; cases hno)
    · exact hi.move (by rw [hc]; intro hno; cases hno) (by intro hno; cases hno)
        (by intro _ _ hno; cases hno)
  · apply hi.store hc
    apply hok
    rw [hc]
    rfl

/-- A terminal state has no store. -/
theorem Inv.latched (hi : Inv s) {e : StateEvent} (hok : s.Fresh e) (h : s.step e = some s')
    (hterminal : s.get.isTerminal = true) : s'.get = s.get := by
  obtain ⟨c, op, rfl, hc, rfl⟩ | ⟨c, target, orElse, rfl, hc, rfl⟩ |
    ⟨c, loaded, target, rfl, hc, rfl⟩ := step_cases h
  · rfl
  · rfl
  · have hfresh : s.get = loaded := hok loaded (by rw [hc]; rfl)
    have hedge := hi.storing c loaded target hc
    rw [← hfresh, JobState.not_allowed_of_isTerminal hterminal] at hedge
    cases hedge

/-- A terminal state is kept to the end of the run. -/
theorem Inv.latched_run (hi : Inv s) {es : List StateEvent}
    (hok : runOk StateMachine.step Fresh s es) (h : runEvents StateMachine.step s es = some s')
    (hterminal : s.get.isTerminal = true) : s'.get = s.get := by
  induction es generalizing s with
  | nil => rw [← Option.some.inj h]
  | cons e es ih =>
    obtain ⟨t, ht, hrest⟩ := Option.bind_eq_some_iff.mp h
    have hsame := hi.latched hok.1 ht hterminal
    rw [← hsame] at hterminal ⊢
    exact ih (hi.step hok.1 ht) (hok.2 t ht) hrest hterminal

/-- **The job's states follow the graph.**  While every store finds the value
that its call loaded, the values taken are a path of allowed edges that ends
in the current one, every accepted call has stored once, along an allowed
edge from the value it overwrote, and a terminal value stays. -/
theorem transitions_follow_graph (h : Reach step Fresh (· = new) s) :
    (s.values.IsChain (fun x y => JobState.allowed x y = true) ∧ s.values.getLast? = some s.get) ∧
    (∀ c, s.calls c = .ok →
      ∃ x y, s.edgesOf c = [(c, x, y)] ∧ JobState.allowed x y = true) ∧
    ∀ es s', runOk step Fresh s es → runEvents step s es = some s' →
      s.get.isTerminal = true → s'.get = s.get := by
  have hi : Inv s := h.invariant (fun _ hnew => hnew ▸ .new) fun _ _ _ hi hok hs => hi.step hok hs
  exact ⟨⟨hi.path, hi.last⟩, hi.accepted, fun es s' hok hrun => hi.latched_run hok hrun⟩

/-- A call goes to probing, and another one cancels the job. -/
def cancelledRun : List StateEvent :=
  [.call 0 (.transition .probing), .load 0, .store 0, .call 1 .cancel, .load 1, .store 1,
    .call 2 .cancel, .load 2, .load 2, .store 2]

/-- The cancellation goes through its two edges. -/
theorem transitions_follow_graph_cancelledRun :
    ∃ s, runEvents step new cancelledRun = some s ∧ s.get = .cancelled ∧
      s.values = [.created, .probing, .cancelling, .cancelled] ∧
      s.values.IsChain fun x y => JobState.allowed x y = true := by
  have hok : runOk step Fresh new cancelledRun := by decide
  have hrun : ∃ s ∈ runEvents step new cancelledRun, s.get = .cancelled ∧
      s.values = [.created, .probing, .cancelling, .cancelled] := by decide
  obtain ⟨s, hs, hget, hvalues⟩ := hrun
  exact ⟨s, hs, hget, hvalues, (transitions_follow_graph (.of_run (.start rfl) hok hs)).1.1⟩

/-- A call has loaded the first state when the job is cancelled, and stores
after it. -/
def staleRun : List StateEvent :=
  [.call 0 (.transition .probing), .load 0, .call 1 .cancel, .load 1, .store 1, .call 2 .cancel,
    .load 2, .load 2, .store 2, .store 0]

/-- **A late store leaves a terminal state**: what was loaded before it was
stored over. -/
theorem stale_store_leaves_terminal :
    ∃ s, runEvents step new staleRun = some s ∧
      s.values = [.created, .cancelling, .cancelled, .probing] ∧ s.calls 0 = .ok ∧
      s.edgesOf 0 = [(0, .cancelled, .probing)] ∧
      JobState.allowed .cancelled .probing = false := by
  have hrun : ∃ s ∈ runEvents step new staleRun,
      s.values = [.created, .cancelling, .cancelled, .probing] ∧ s.calls 0 = .ok ∧
      s.edgesOf 0 = [(0, .cancelled, .probing)] ∧
      JobState.allowed .cancelled .probing = false := by decide
  exact hrun

end StateMachine

end KDown
