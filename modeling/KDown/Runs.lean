/-
KDown/Runs.lean

Runs of labelled transition systems whose step is a partial function.

A system is a function `step : σ → ε → Option σ`; `none` means the event is
not enabled.  A run is a list of events folded through `step`.  Many safety
results below hold only for the runs whose every step meets a side condition
on the state it starts from, so reachability carries that condition: with the
trivial condition `fun _ _ => True` it is ordinary reachability.

The induction rules are `Reach.invariant` for reachable states,
`runEvents_invariant` for executed histories and `runOk.imp` for conditions
along a run; `Reach.of_run` leads from an executed list of events to
reachability, and `forall_isPrefix_iff_runOk` compares a property of all states
of a run with a condition on its steps.
-/
import Mathlib.Data.List.Induction
import Mathlib.Tactic.Common

namespace KDown

variable {σ ε : Type*}

/-- `Reach step ok init s`: the state `s` is reached from a state of `init` by
steps that each meet `ok` in the state they start from. -/
inductive Reach (step : σ → ε → Option σ) (ok : σ → ε → Prop) (init : σ → Prop) :
    σ → Prop
  | start {s} : init s → Reach step ok init s
  | next {s e s'} : Reach step ok init s → ok s e → step s e = some s' →
      Reach step ok init s'

variable {step : σ → ε → Option σ} {ok : σ → ε → Prop} {init : σ → Prop}

/-- What holds initially and is kept by every step that meets the condition
holds in every state reached. -/
theorem Reach.invariant {I : σ → Prop} (hinit : ∀ s, init s → I s)
    (hstep : ∀ s e s', I s → ok s e → step s e = some s' → I s')
    {s : σ} (h : Reach step ok init s) : I s := by
  induction h with
  | start h₀ => exact hinit _ h₀
  | next _ hok hs ih => exact hstep _ _ _ ih hok hs

/-- Execute a list of events; `none` if one of them is not enabled. -/
def runEvents (step : σ → ε → Option σ) : σ → List ε → Option σ
  | s, [] => some s
  | s, e :: es => (step s e).bind fun s' => runEvents step s' es

theorem runEvents_append (s : σ) (es es' : List ε) :
    runEvents step s (es ++ es') = (runEvents step s es).bind fun t => runEvents step t es' := by
  induction es generalizing s with
  | nil => rfl
  | cons e es ih =>
    simp only [List.cons_append, runEvents]
    rcases step s e with - | t
    · rfl
    · exact ih t

/-- What holds of the empty history at the start and is kept when one more
event is executed holds of every executed history and the state it leads to. -/
theorem runEvents_invariant {I : List ε → σ → Prop} {s₀ : σ} (hinit : I [] s₀)
    (hstep : ∀ es s e s', runEvents step s₀ es = some s → I es s → step s e = some s' →
      I (es ++ [e]) s')
    {es : List ε} {s : σ} (h : runEvents step s₀ es = some s) : I es s := by
  -- the history grows at its end
  induction es using List.reverseRecOn generalizing s with
  | nil =>
    rw [← Option.some.inj h]
    exact hinit
  | append_singleton es e ih =>
    rw [runEvents_append] at h
    obtain ⟨t, ht, hlast⟩ := Option.bind_eq_some_iff.mp h
    obtain ⟨u, hu, hend⟩ := Option.bind_eq_some_iff.mp hlast
    rw [← Option.some.inj hend]
    exact hstep es t e u ht (ih ht) hu

/-- Every step of the executed list meets `ok`. -/
def runOk (step : σ → ε → Option σ) (ok : σ → ε → Prop) : σ → List ε → Prop
  | _, [] => True
  | s, e :: es => ok s e ∧ ∀ s' ∈ step s e, runOk step ok s' es

instance decidableRunOk [∀ s e, Decidable (ok s e)] :
    ∀ (s : σ) (es : List ε), Decidable (runOk step ok s es)
  | _, [] => .isTrue trivial
  | s, e :: es =>
      have := fun s' => decidableRunOk s' es
      inferInstanceAs (Decidable (ok s e ∧ ∀ s' ∈ step s e, runOk step ok s' es))

/-- A condition that the events meet in any state. -/
theorem runOk_of_forall {s : σ} {es : List ε} (h : ∀ e ∈ es, ∀ s, ok s e) : runOk step ok s es := by
  induction es generalizing s with
  | nil => trivial
  | cons e es ih =>
    exact ⟨h e List.mem_cons_self s, fun _ _ => ih fun e' he' => h e' (List.mem_cons_of_mem _ he')⟩

theorem runOk_true {s : σ} {es : List ε} : runOk step (fun _ _ => True) s es :=
  runOk_of_forall fun _ _ _ => trivial

/-- A condition met along a run gives another one, by an invariant that it
keeps. -/
theorem runOk.imp {ok' : σ → ε → Prop} {I : σ → Prop}
    (himp : ∀ s e, I s → ok s e → ok' s e)
    (hkeep : ∀ s e s', I s → ok s e → step s e = some s' → I s')
    {s : σ} {es : List ε} (hs : I s) (h : runOk step ok s es) : runOk step ok' s es := by
  induction es generalizing s with
  | nil => trivial
  | cons e es ih =>
    obtain ⟨hok, hrest⟩ := h
    exact ⟨himp s e hs hok, fun t ht => ih (hkeep s e t hs hok ht) (hrest t ht)⟩

/-- An executed list of events whose steps meet the condition ends in a
reachable state. -/
theorem Reach.of_run {s s' : σ} {es : List ε} (hs : Reach step ok init s)
    (hok : runOk step ok s es) (hrun : runEvents step s es = some s') :
    Reach step ok init s' := by
  induction es generalizing s with
  | nil =>
    simp only [runEvents, Option.some.injEq] at hrun
    exact hrun ▸ hs
  | cons e es ih =>
    -- one step, and the rest of the list from the state it leads to
    obtain ⟨t, ht, hrest⟩ := Option.bind_eq_some_iff.mp hrun
    exact ih (.next hs hok.1 ht) (hok.2 t ht) hrest

/-- Where a property is lost exactly by the steps that do not meet a condition,
it holds all along a run if and only if every step meets the condition. -/
theorem forall_isPrefix_iff_runOk {I P : σ → Prop}
    (hkeep : ∀ s e s', I s → step s e = some s' → I s')
    (hstep : ∀ s e s', I s → P s → step s e = some s' → (P s' ↔ ok s e))
    {s t : σ} {es : List ε} (hI : I s) (hP : P s) (hrun : runEvents step s es = some t) :
    (∀ es' s', es' <+: es → runEvents step s es' = some s' → P s') ↔ runOk step ok s es := by
  induction es generalizing s with
  | nil =>
    refine ⟨fun _ => trivial, fun _ es' s' hpre hrun' => ?_⟩
    rw [List.prefix_nil.mp hpre] at hrun'
    exact Option.some.inj hrun' ▸ hP
  | cons e es ih =>
    obtain ⟨u, hu, hrest⟩ := Option.bind_eq_some_iff.mp hrun
    have hIu := hkeep s e u hI hu
    constructor
    · intro h
      have hPu : P u := h [e] u (List.cons_prefix_cons.mpr ⟨rfl, List.nil_prefix⟩) (by
        rw [runEvents, hu]
        rfl)
      refine ⟨(hstep s e u hI hP hu).mp hPu, fun u' hu' => ?_⟩
      rw [hu] at hu'
      cases hu'
      refine (ih hIu hPu hrest).mp fun es' s' hpre hrun' => ?_
      refine h (e :: es') s' (List.cons_prefix_cons.mpr ⟨rfl, hpre⟩) ?_
      rw [runEvents, hu]
      exact hrun'
    · rintro ⟨hok, hoks⟩ es' s' hpre hrun'
      rcases es' with - | ⟨e', es'⟩
      · exact Option.some.inj hrun' ▸ hP
      · obtain ⟨rfl, htail⟩ := List.cons_prefix_cons.mp hpre
        rw [runEvents, hu] at hrun'
        exact (ih hIu ((hstep s e' u hI hP hu).mpr hok) hrest).mpr (hoks u hu) es' s' htail hrun'

end KDown
