/-
KDown/ConcurrencyOverride.lean

The desired worker count under two writers: the handle's `set_desired_workers`,
and the loop of the adaptive controller (job/segmented.rs).

Either writer stores into one atomic.  A manual request stores the count and then
a flag, and the loop leaves when it finds the flag; but it looks at the flag
before it measures a window, and stores when it has decided.  So a window that is
past the look stores once more, and over the manual count
(`override_settles_race`); there is no other (`override_settles`).

Each access to an atomic is one event here.  What a window has measured and when
it is decided come with the event of the decision.
-/
import KDown.AdaptiveController
import Mathlib.Algebra.Order.Ring.Nat
import Mathlib.Logic.Function.Basic

namespace KDown

/-- Where the loop of the controller stands. -/
inductive ControllerLoop
  | sleeping
  /-- The flag was clear. -/
  | checked
  | deciding (current : ℕ)
  | adjusting (next : ℕ)
  | ended
  deriving DecidableEq

/-- Is a window past its look at the flag? -/
def ControllerLoop.inWindow : ControllerLoop → Bool
  | .checked => true
  | .deciding _ => true
  | .adjusting _ => true
  | _ => false

/-- The count, the flag, and the two writers. -/
structure ConcurrencyState where
  desiredWorkers : ℕ
  manualOverride : Bool
  loop : ControllerLoop
  controller : AdaptiveController
  /-- The requests between their two stores. -/
  marking : ℕ → Bool

/-- One access of a writer, or a window of the controller. -/
inductive ConcurrencyEvent
  /-- A request stores its count. -/
  | store (c n : ℕ)
  /-- The request marks the override. -/
  | mark (c : ℕ)
  | check
  /-- The job is over, or the loop is told to stop. -/
  | stop
  /-- The window has not ended. -/
  | observe
  | read
  | decide (sample : WindowSample) (now : ℚ)
  /-- `adjust_desired_workers`. -/
  | adjust
  deriving DecidableEq

namespace ConcurrencyEvent

/-- A request stores a count. -/
def isStore : ConcurrencyEvent → Bool
  | .store _ _ => true
  | _ => false

/-- The loop stores a count. -/
def isAdjust : ConcurrencyEvent → Bool
  | .adjust => true
  | _ => false

end ConcurrencyEvent

/-- `clamp` to the configured bounds. -/
def clampWorkers (minWorkers maxWorkers n : ℕ) : ℕ :=
  if n < minWorkers then minWorkers else if maxWorkers < n then maxWorkers else n

theorem clampWorkers_mem {minWorkers maxWorkers : ℕ} (h : minWorkers ≤ maxWorkers) (n : ℕ) :
    minWorkers ≤ clampWorkers minWorkers maxWorkers n ∧
      clampWorkers minWorkers maxWorkers n ≤ maxWorkers := by
  rw [clampWorkers]
  split_ifs <;> omega

namespace ConcurrencyState

variable (minWorkers maxWorkers : ℕ)

/-- One event. -/
def step (s : ConcurrencyState) : ConcurrencyEvent → Option ConcurrencyState
  | .store c n =>
      if s.marking c then none
      else
        some { s with
          desiredWorkers := clampWorkers minWorkers maxWorkers n
          marking := Function.update s.marking c true }
  | .mark c =>
      if s.marking c then
        some { s with manualOverride := true, marking := Function.update s.marking c false }
      else none
  | .check =>
      match s.loop with
      | .sleeping =>
          some (if s.manualOverride then
            { s with loop := .ended, controller := { s.controller with manualOverride := true } }
          else { s with loop := .checked })
      | _ => none
  | .stop =>
      match s.loop with
      | .sleeping => some { s with loop := .ended }
      | _ => none
  | .observe =>
      match s.loop with
      | .checked => some { s with loop := .sleeping }
      | _ => none
  | .read =>
      match s.loop with
      | .checked => some { s with loop := .deciding s.desiredWorkers }
      | _ => none
  | .decide sample now =>
      match s.loop with
      | .deciding current =>
          let (decision, controller) := s.controller.decide sample current now
          let next := controller.apply decision current
          some { s with
            controller := controller
            loop := if decision ≠ .hold ∧ next ≠ current then .adjusting next else .sleeping }
      | _ => none
  | .adjust =>
      match s.loop with
      | .adjusting next =>
          some { s with
            desiredWorkers := clampWorkers minWorkers maxWorkers next
            loop := .sleeping }
      | _ => none

/-- A job of which the loop has not begun. -/
structure Starts (effectiveMax : ℕ) (config : AdaptiveConfig) (s : ConcurrencyState) : Prop where
  min_le : minWorkers ≤ s.desiredWorkers
  le_max : s.desiredWorkers ≤ maxWorkers
  loop : s.loop = .sleeping
  controller : s.controller = .new config minWorkers effectiveMax
  unmarked : s.manualOverride = false
  marking : ∀ c, s.marking c = false

variable {minWorkers maxWorkers} {s s' : ConcurrencyState}

/-- What a step does to the count, where the loop goes, and whether the flag is
kept. -/
structure StepSpec (minWorkers maxWorkers : ℕ) (s s' : ConcurrencyState) (e : ConcurrencyEvent) :
    Prop where
  flag : s.manualOverride = true → s'.manualOverride = true
  count : e.isStore = false → e.isAdjust = false → s'.desiredWorkers = s.desiredWorkers
  clamped : s'.desiredWorkers = s.desiredWorkers ∨
    ∃ n, s'.desiredWorkers = clampWorkers minWorkers maxWorkers n
  adjust : e.isAdjust = true → s.loop.inWindow = true ∧ s'.loop.inWindow = false
  window : s.manualOverride = true → s'.loop.inWindow = true → s.loop.inWindow = true

/-- **What one step can do** to the count, the loop and the flag. -/
theorem step_spec {e : ConcurrencyEvent} (h : step minWorkers maxWorkers s e = some s') :
    StepSpec minWorkers maxWorkers s s' e := by
  cases e with
  | store c n =>
    rw [step] at h
    split_ifs at h
    cases h
    exact ⟨id, nofun, .inr ⟨n, rfl⟩, nofun, fun _ => id⟩
  | mark c =>
    rw [step] at h
    split_ifs at h
    cases h
    exact ⟨fun _ => rfl, fun _ _ => rfl, .inl rfl, nofun, fun _ => id⟩
  | check =>
    rw [step] at h
    split at h
    · cases h
      split_ifs with hflag
      · exact ⟨id, fun _ _ => rfl, .inl rfl, nofun, nofun⟩
      · exact ⟨id, fun _ _ => rfl, .inl rfl, nofun, fun htrue => absurd htrue hflag⟩
    · cases h
  | stop =>
    rw [step] at h
    split at h
    · cases h
      exact ⟨id, fun _ _ => rfl, .inl rfl, nofun, nofun⟩
    · cases h
  | observe =>
    rw [step] at h
    split at h
    · cases h
      exact ⟨id, fun _ _ => rfl, .inl rfl, nofun, nofun⟩
    · cases h
  | read =>
    rw [step] at h
    split at h
    · next hloop =>
      cases h
      exact ⟨id, fun _ _ => rfl, .inl rfl, nofun, fun _ _ => by rw [hloop]; rfl⟩
    · cases h
  | decide sample now =>
    rw [step] at h
    split at h
    · next current hloop =>
      cases h
      exact ⟨id, fun _ _ => rfl, .inl rfl, nofun, fun _ _ => by rw [hloop]; rfl⟩
    · cases h
  | adjust =>
    rw [step] at h
    split at h
    · next next hloop =>
      cases h
      exact ⟨id, nofun, .inr ⟨next, rfl⟩, fun _ => ⟨by rw [hloop]; rfl, rfl⟩, nofun⟩
    · cases h

/-- Both writers keep to the bounds. -/
theorem bounds_reach (hle : minWorkers ≤ maxWorkers) {effectiveMax : ℕ} {config : AdaptiveConfig}
    (h : Reach (step minWorkers maxWorkers) (fun _ _ => True)
      (Starts minWorkers maxWorkers effectiveMax config) s) :
    minWorkers ≤ s.desiredWorkers ∧ s.desiredWorkers ≤ maxWorkers := by
  refine h.invariant (I := fun t => minWorkers ≤ t.desiredWorkers ∧ t.desiredWorkers ≤ maxWorkers)
    (fun t ht => ⟨ht.min_le, ht.le_max⟩) fun t e t' hbounds _ hstep => ?_
  rcases (step_spec hstep).clamped with hsame | ⟨n, hclamp⟩
  · rw [hsame]
    exact hbounds
  · rw [hclamp]
    exact clampWorkers_mem hle n

/-- After an override the loop stores as often as it is in a window. -/
theorem adjusts_of_override (hflag : s.manualOverride = true) {es : List ConcurrencyEvent}
    (hrun : runEvents (step minWorkers maxWorkers) s es = some s') :
    es.countP ConcurrencyEvent.isAdjust + (if s'.loop.inWindow then 1 else 0) ≤
      if s.loop.inWindow then 1 else 0 := by
  have hboth := runEvents_invariant
    (I := fun es t => t.manualOverride = true ∧
      es.countP ConcurrencyEvent.isAdjust + (if t.loop.inWindow then 1 else 0) ≤
        if s.loop.inWindow then 1 else 0)
    ⟨hflag, by simp⟩ (fun es t e t' _ ih hstep => ?_) hrun
  · exact hboth.2
  · have hspec := step_spec hstep
    obtain ⟨hset, hcount⟩ := ih
    refine ⟨hspec.flag hset, ?_⟩
    rw [List.countP_append, List.countP_singleton]
    rcases hadjust : e.isAdjust with - | -
    · have hwindow := hspec.window hset
      rcases hafter : t'.loop.inWindow with - | -
      · simp only [Bool.false_eq_true, if_false]
        omega
      · rw [hwindow hafter] at hcount
        exact hcount
    · obtain ⟨hbefore, hafter⟩ := hspec.adjust hadjust
      rw [hbefore] at hcount
      rw [hafter]
      exact hcount

/-- Where neither writer stores, the count stays. -/
theorem desired_of_quiet {es : List ConcurrencyEvent}
    (hrun : runEvents (step minWorkers maxWorkers) s es = some s')
    (hstore : es.countP ConcurrencyEvent.isStore = 0)
    (hadjust : es.countP ConcurrencyEvent.isAdjust = 0) :
    s'.desiredWorkers = s.desiredWorkers := by
  induction es generalizing s with
  | nil =>
    cases hrun
    rfl
  | cons e es ih =>
    obtain ⟨t, ht, hrest⟩ := Option.bind_eq_some_iff.mp hrun
    rw [List.countP_eq_zero] at hstore hadjust
    rw [ih hrest (List.countP_eq_zero.mpr fun e' he' => hstore e' (List.mem_cons_of_mem _ he'))
      (List.countP_eq_zero.mpr fun e' he' => hadjust e' (List.mem_cons_of_mem _ he'))]
    exact (step_spec ht).count (Bool.eq_false_iff.mpr (hstore e List.mem_cons_self))
      (Bool.eq_false_iff.mpr (hadjust e List.mem_cons_self))

/-- **An override settles after one window**: the count is within the bounds in
every state reached.  Once an override is marked, the loop stores at most once
more, if it is in a window and not otherwise; and unless another count is
requested, that store is all that can change the count. -/
theorem override_settles (hle : minWorkers ≤ maxWorkers) {effectiveMax : ℕ}
    {config : AdaptiveConfig}
    (h : Reach (step minWorkers maxWorkers) (fun _ _ => True)
      (Starts minWorkers maxWorkers effectiveMax config) s) :
    (minWorkers ≤ s.desiredWorkers ∧ s.desiredWorkers ≤ maxWorkers) ∧
      (s.manualOverride = true → ∀ es s',
        runEvents (step minWorkers maxWorkers) s es = some s' →
          es.countP ConcurrencyEvent.isAdjust ≤ (if s.loop.inWindow then 1 else 0) ∧
          (es.countP ConcurrencyEvent.isStore = 0 → s'.desiredWorkers ≠ s.desiredWorkers →
            s.loop.inWindow = true ∧ es.countP ConcurrencyEvent.isAdjust = 1)) := by
  refine ⟨bounds_reach hle h, fun hflag es s' hrun => ?_⟩
  have hcount := adjusts_of_override hflag hrun
  refine ⟨by omega, fun hstore hchanged => ?_⟩
  have hadjust : es.countP ConcurrencyEvent.isAdjust ≠ 0 := fun hzero =>
    hchanged (desired_of_quiet hrun hstore hzero)
  rcases hwindow : s.loop.inWindow with - | -
  · rw [hwindow] at hcount
    exact absurd (Nat.eq_zero_of_le_zero (le_trans (Nat.le_add_right _ _) hcount)) hadjust
  · rw [hwindow] at hcount
    exact ⟨rfl, by simp only [if_true] at hcount; omega⟩

/-- A window of 1000 useful bytes in a second. -/
def steadySample : WindowSample :=
  ⟨1000, 1000, 0, 0, 0, none, none, 0, none, none, 10 ^ 9⟩

/-- The adaptive controller between one worker and eight, before its first
window. -/
def adaptiveStart : ConcurrencyState :=
  ⟨1, false, .sleeping, .new .default 1 8, fun _ => false⟩

/-- The second window has read the count 1 when five workers are requested. -/
def raceRun : List ConcurrencyEvent :=
  [.check, .read, .decide steadySample 1, .check, .read, .store 0 5, .mark 0,
    .decide steadySample 2]

/-- **The count that was requested does not last.** -/
theorem override_settles_race : ∃ s s', runEvents (step 1 8) adaptiveStart raceRun = some s ∧
    s.desiredWorkers = 5 ∧ runEvents (step 1 8) s [.adjust] = some s' ∧
      s'.desiredWorkers = 2 ∧ s.loop.inWindow = true := by
  have hfirst : (runEvents (step 1 8) adaptiveStart raceRun).isSome = true := by
    rfl
  obtain ⟨s, hs⟩ := Option.isSome_iff_exists.mp hfirst
  have hend : (runEvents (step 1 8) adaptiveStart raceRun).map
      (fun t => (t.desiredWorkers, t.manualOverride, t.loop)) = some (5, true, .adjusting 2) := by
    with_unfolding_all rfl
  rw [hs, Option.map_some, Option.some_inj, Prod.mk.injEq, Prod.mk.injEq] at hend
  have hadjust : runEvents (step 1 8) s [.adjust] =
      some { s with desiredWorkers := 2, loop := .sleeping } := by
    rw [runEvents, step, hend.2.2]
    rfl
  have hreach : Reach (step 1 8) (fun _ _ => True) (Starts 1 8 8 .default) s :=
    .of_run (.start ⟨by decide, by decide, rfl, rfl, rfl, fun _ => rfl⟩) runOk_true hs
  have hsettles := (override_settles (by decide) hreach).2 hend.2.1 _ _ hadjust
  refine ⟨s, _, hs, hend.1, hadjust, rfl, (hsettles.2 rfl ?_).1⟩
  rw [hend.1]
  show (2 : ℕ) ≠ 5
  omega

end ConcurrencyState

end KDown
