/-
KDown/AdaptiveController.lean

The adaptive range-concurrency controller (control/adaptive.rs), and the runs
of the loop that feeds it (job/segmented.rs).

Each window gives the controller a sample, and the controller holds the level,
probes one worker more or takes one away.  A probe stays in flight until it is
kept or reverted.  It is compared with the best goodput of the windows without
a probe, and so the reference must not move meanwhile.

* `decide` is cut at the source's own stages: smoothing and anchoring
  (`observe`), the answer to pressure (`respond`), the ratchet of the reference
  (`ratchet`), and the two ways to act (`evaluate`, `probe`).
* `decide_cases` says once what a window can do.  The invariant `Steady` and
  all that is proved of runs come from it.

Goodput is exact: samples are counts, and time is rational, in seconds.
-/
import KDown.Runs
import Mathlib.Algebra.Order.Field.Rat
import Mathlib.Tactic.Linarith

namespace KDown

/-! ### Configuration and samples -/

/-- Bound on how many opening windows may be spent anchoring the goodput
reference before the first probe. -/
def openingWindowCap : ℕ := 8

/-- `f64::EPSILON`. -/
def f64Epsilon : ℚ := 1 / 2 ^ 52

/-- The thresholds of the controller. -/
structure AdaptiveConfig where
  /-- Relative gain required to keep a probe. -/
  materialGainBand : ℚ
  cooldown : ℚ
  maxRetriesPerWindow : ℕ
  maxThrottledPerWindow : ℕ
  writerQueueP95Ceiling : ℚ
  writerAckP95CeilingMs : ℚ
  budgetWaitCeilingMs : ℕ
  rssCeilingBytes : ℕ
  cpuCeilingPercent : ℚ
  sustainedPressureWindows : ℕ
  deriving DecidableEq

/-- `AdaptiveConfig::default`, the one configuration the engine runs with. -/
def AdaptiveConfig.default : AdaptiveConfig where
  materialGainBand := 5 / 100
  cooldown := 1
  maxRetriesPerWindow := 2
  maxThrottledPerWindow := 0
  writerQueueP95Ceiling := 8
  writerAckP95CeilingMs := 250
  budgetWaitCeilingMs := 250
  rssCeilingBytes := 1024 * 1024 * 1024
  cpuCeilingPercent := 400
  sustainedPressureWindows := 2

/-- What one window observed. -/
structure WindowSample where
  completedBytes : ℕ
  networkBytes : ℕ
  wastedBytes : ℕ
  retries : ℕ
  throttled : ℕ
  writerAckP95Ms : Option ℚ
  writerQueueP95 : Option ℚ
  budgetWaitMs : ℕ
  rssBytes : Option ℕ
  cpuPercent : Option ℚ
  /-- Window length in nanoseconds. -/
  elapsed : ℕ
  deriving DecidableEq

namespace WindowSample

/-- Useful goodput over the window, in bytes per second. -/
def usefulGoodput (sample : WindowSample) : ℚ :=
  sample.completedBytes / max ((sample.elapsed : ℚ) / 10 ^ 9) f64Epsilon

/-- Retries, throttling or waste are above their ceilings. -/
def underPressure (sample : WindowSample) (config : AdaptiveConfig) : Bool :=
  config.maxRetriesPerWindow < sample.retries ||
    config.maxThrottledPerWindow < sample.throttled ||
    (0 < sample.wastedBytes && sample.completedBytes ≤ sample.wastedBytes &&
      0 < sample.completedBytes)

/-- The writer or the budget is behind. -/
def storagePressure (sample : WindowSample) (config : AdaptiveConfig) : Bool :=
  sample.writerQueueP95.any (config.writerQueueP95Ceiling ≤ ·) ||
    sample.writerAckP95Ms.any (config.writerAckP95CeilingMs ≤ ·) ||
    config.budgetWaitCeilingMs ≤ sample.budgetWaitMs

/-- Memory or processor time is short. -/
def resourcePressure (sample : WindowSample) (config : AdaptiveConfig) : Bool :=
  sample.rssBytes.any (config.rssCeilingBytes ≤ ·) ||
    sample.cpuPercent.any (config.cpuCeilingPercent ≤ ·)

/-- Any of the three. -/
def pressed (sample : WindowSample) (config : AdaptiveConfig) : Bool :=
  sample.underPressure config || sample.storagePressure config || sample.resourcePressure config

end WindowSample

/-! ### The controller -/

/-- Why a window was decided as it was. -/
inductive DecisionReason
  | none
  | manualOverride
  | emptyWindow
  | cooldown
  | baseline
  | gainKept
  | noGainReverted
  | probe
  | retryPressure
  | storagePressure
  | resourcePressure
  | atMaximum
  deriving DecidableEq, Repr

/-- What is done with the worker count. -/
inductive Decision
  | hold
  | probeUp
  | reduce
  deriving DecidableEq, Repr

/-- The state of the controller, with its bounds. -/
structure AdaptiveController where
  config : AdaptiveConfig
  min : ℕ
  max : ℕ
  /-- Best smoothed goodput while no probe was in flight. -/
  bestGoodput : Option ℚ
  referenceAnchored : Bool
  baselineWindows : ℕ
  smoothedGoodput : Option ℚ
  /-- The level before the current probe. -/
  preProbeLevel : Option ℕ
  cooldownUntil : Option ℚ
  manualOverride : Bool
  pressureWindows : ℕ
  reason : DecisionReason
  deriving DecidableEq

namespace AdaptiveController

/-- A controller that has seen no window. -/
def new (config : AdaptiveConfig) (min max : ℕ) : AdaptiveController where
  config := config
  min := Max.max min 1
  max := Max.max max (Max.max min 1)
  bestGoodput := none
  referenceAnchored := false
  baselineWindows := 0
  smoothedGoodput := none
  preProbeLevel := none
  cooldownUntil := none
  manualOverride := false
  pressureWindows := 0
  reason := .none

/-- The controller still waits after its last change. -/
def inCooldown (c : AdaptiveController) (now : ℚ) : Bool := c.cooldownUntil.any (now < ·)

/-- Exponential smoothing with α = 0.5. -/
def smooth (c : AdaptiveController) (sample : WindowSample) : ℚ :=
  match c.smoothedGoodput with
  | some prev => 1 / 2 * prev + 1 / 2 * sample.usefulGoodput
  | none => sample.usefulGoodput

/-- Smoothing has converged on the reference. -/
def converged (c : AdaptiveController) (smoothed : ℚ) : Bool :=
  c.smoothedGoodput.any fun prev =>
    |smoothed - prev| < c.config.materialGainBand * Max.max prev f64Epsilon

/-- Smooth the goodput and anchor the reference. -/
def observe (c : AdaptiveController) (sample : WindowSample) : AdaptiveController :=
  { c with
    -- the check reads the smoothed value of the previous window
    referenceAnchored := c.referenceAnchored || c.converged (c.smooth sample) ||
      openingWindowCap ≤ c.baselineWindows
    smoothedGoodput := some (c.smooth sample) }

/-- The reason that is given for pressure. -/
def pressureReason (sample : WindowSample) (config : AdaptiveConfig) : DecisionReason :=
  if sample.underPressure config then .retryPressure
  else if sample.storagePressure config then .storagePressure
  else .resourcePressure

/-- The reason, and the windows under pressure so far. -/
def notePressure (c : AdaptiveController) (sample : WindowSample) : AdaptiveController :=
  { c with
    reason := pressureReason sample c.config
    pressureWindows :=
      if sample.underPressure c.config then Max.max c.config.sustainedPressureWindows 1
      else Min.min (c.pressureWindows + 1) (2 ^ 32 - 1) }

/-- Pressure: hold or reduce, never probe into trouble. -/
def respond (c : AdaptiveController) (current : ℕ) (now : ℚ) : Decision × AdaptiveController :=
  let cooled := { c with cooldownUntil := some (now + c.config.cooldown) }
  match c.preProbeLevel with
  | some pre =>
      (if pre < current then .reduce else .hold, { cooled with preProbeLevel := none })
  | none =>
      if Max.max c.config.sustainedPressureWindows 1 ≤ c.pressureWindows then
        if c.min < current then (.reduce, cooled) else (.hold, cooled)
      else (.hold, cooled)

/-- Only windows without pressure and without a probe raise the reference. -/
def ratchet (c : AdaptiveController) (smoothed : ℚ) : AdaptiveController :=
  { c with
    pressureWindows := 0
    bestGoodput :=
      if c.preProbeLevel.isNone then
        some (match c.bestGoodput with
          | some best => Max.max best smoothed
          | none => smoothed)
      else c.bestGoodput }

/-- The relative gain of the smoothed goodput over the reference. -/
def gain (smoothed reference : ℚ) : ℚ := (smoothed - reference) / Max.max reference f64Epsilon

/-- A probe is in flight: keep it or revert it. -/
def evaluate (c : AdaptiveController) (current : ℕ) (now : ℚ) : Decision × AdaptiveController :=
  let reference := c.bestGoodput.getD 0
  let smoothed := c.smoothedGoodput.getD reference
  let cooled := { c with preProbeLevel := none, cooldownUntil := some (now + c.config.cooldown) }
  if c.config.materialGainBand ≤ gain smoothed reference then
    let kept := { cooled with bestGoodput := c.smoothedGoodput }
    if current < c.max then
      (.probeUp, { kept with preProbeLevel := some current, reason := .gainKept })
    else (.hold, { kept with reason := .atMaximum })
  else
    (if c.min < current then .reduce else .hold, { cooled with reason := .noGainReverted })

/-- Stable: probe one worker more. -/
def probe (c : AdaptiveController) (current : ℕ) (now : ℚ) : Decision × AdaptiveController :=
  if current < c.max then
    (.probeUp, { c with
      preProbeLevel := some current
      cooldownUntil := some (now + c.config.cooldown)
      reason := .probe })
  else (.hold, { c with reason := .atMaximum })

/-- What an unpressed window decides. -/
def act (c : AdaptiveController) (current : ℕ) (now : ℚ) : Decision × AdaptiveController :=
  if c.inCooldown now then (.hold, { c with reason := .cooldown })
  else if c.referenceAnchored = false then
    (.hold, { c with baselineWindows := c.baselineWindows + 1, reason := .baseline })
  else
    match c.preProbeLevel with
    | some _ => c.evaluate current now
    | none => c.probe current now

/-- The next decision given one window's deltas. -/
def decide (c : AdaptiveController) (sample : WindowSample) (current : ℕ) (now : ℚ) :
    Decision × AdaptiveController :=
  if c.manualOverride then (.hold, { c with reason := .manualOverride })
  else if sample.elapsed = 0 ∨ sample.completedBytes = 0 ∧ sample.networkBytes = 0 then
    (.hold, { c with reason := .emptyWindow })
  else if sample.pressed c.config then ((c.observe sample).notePressure sample).respond current now
  else ((c.observe sample).ratchet (c.smooth sample)).act current now

/-- Apply a decision to a desired count. -/
def apply (c : AdaptiveController) (decision : Decision) (current : ℕ) : ℕ :=
  match decision with
  | .hold => current
  | .probeUp => Min.min (Max.max (current + 1) c.min) c.max
  | .reduce => Min.min (Max.max (current - 1) c.min) c.max

/-! ### What a window can do -/

/-- The reference is kept or raised. -/
def Raised (best best' : Option ℚ) : Prop := ∀ b ∈ best, ∃ b' ∈ best', b ≤ b'

theorem Raised.refl (best : Option ℚ) : Raised best best := fun b hb => ⟨b, hb, le_rfl⟩

/-- What no window changes. -/
structure Frame (c c' : AdaptiveController) : Prop where
  config : c'.config = c.config
  min : c'.min = c.min
  max : c'.max = c.max
  manualOverride : c'.manualOverride = c.manualOverride

theorem Frame.refl (c : AdaptiveController) : Frame c c := ⟨rfl, rfl, rfl, rfl⟩

/-- A cooldown from now on. -/
def Cooled (c c' : AdaptiveController) (now : ℚ) : Prop :=
  c'.cooldownUntil = some (now + c.config.cooldown)

/-- The conditions of an upward probe. -/
structure Clear (c : AdaptiveController) (sample : WindowSample) (now : ℚ) : Prop where
  unpressed : sample.pressed c.config = false
  uncooled : c.inCooldown now = false
  automatic : c.manualOverride = false

/-- The decision of a window, and the controller after it. -/
inductive Effect (c : AdaptiveController) (sample : WindowSample) (current : ℕ) (now : ℚ) :
    Decision → AdaptiveController → Prop
  /-- No probe begins or ends. -/
  | held {c'} : Frame c c' → c'.preProbeLevel = c.preProbeLevel →
      Raised c.bestGoodput c'.bestGoodput →
      c'.cooldownUntil = c.cooldownUntil ∨ Cooled c c' now → Effect c sample current now .hold c'
  /-- Without a probe in flight, one worker is taken away. -/
  | reduced {c'} : Frame c c' → c.preProbeLevel = none → c'.preProbeLevel = none →
      c'.bestGoodput = c.bestGoodput → Cooled c c' now → Effect c sample current now .reduce c'
  /-- The probe in flight is given up. -/
  | reverted {c' pre d} : Frame c c' → c.preProbeLevel = some pre → c'.preProbeLevel = none →
      c'.bestGoodput = c.bestGoodput → Cooled c c' now →
      (pre < current → c.min < current → d = .reduce) → d ≠ .probeUp →
      Effect c sample current now d c'
  /-- The probe in flight is kept, and another one begins below the maximum. -/
  | kept {c' pre smoothed d} : Frame c c' → Clear c sample now → c.preProbeLevel = some pre →
      c'.bestGoodput = some smoothed →
      c.config.materialGainBand ≤ gain smoothed (c.bestGoodput.getD 0) → Cooled c c' now →
      (d = .probeUp ∧ current < c.max ∧ c'.preProbeLevel = some current) ∨
        (d = .hold ∧ c'.preProbeLevel = none) → Effect c sample current now d c'
  /-- A probe begins at a stable level. -/
  | probed {c'} : Frame c c' → Clear c sample now → c.preProbeLevel = none → current < c.max →
      c'.preProbeLevel = some current → c'.bestGoodput.isSome = true →
      Raised c.bestGoodput c'.bestGoodput → Cooled c c' now →
      Effect c sample current now .probeUp c'

variable {c c' : AdaptiveController} {sample : WindowSample} {current : ℕ} {now : ℚ} {d : Decision}

theorem respond_effect : Effect c sample current now
    (((c.observe sample).notePressure sample).respond current now).1
    (((c.observe sample).notePressure sample).respond current now).2 := by
  rw [respond]
  split
  · next pre hpre =>
    dsimp only
    split
    · exact .reverted ⟨rfl, rfl, rfl, rfl⟩ hpre rfl rfl rfl (fun _ _ => rfl) nofun
    · next hle =>
      exact .reverted ⟨rfl, rfl, rfl, rfl⟩ hpre rfl rfl rfl (fun h _ => absurd h hle) nofun
  · next hpre =>
    split
    · split
      · exact .reduced ⟨rfl, rfl, rfl, rfl⟩ hpre hpre rfl rfl
      · exact .held ⟨rfl, rfl, rfl, rfl⟩ rfl (.refl _) (.inr rfl)
    · exact .held ⟨rfl, rfl, rfl, rfl⟩ rfl (.refl _) (.inr rfl)

/-- The ratchet raises the reference, and without a probe there is one after it. -/
theorem ratchet_best (smoothed : ℚ) :
    Raised c.bestGoodput (c.ratchet smoothed).bestGoodput ∧
      (c.preProbeLevel = none → (c.ratchet smoothed).bestGoodput.isSome = true) ∧
      ∀ pre, c.preProbeLevel = some pre → (c.ratchet smoothed).bestGoodput = c.bestGoodput := by
  rcases hpre : c.preProbeLevel with - | pre
  · refine ⟨fun b hb => ?_, fun _ => ?_, fun _ h => by cases h⟩
    · rw [Option.mem_def] at hb
      simp only [ratchet, hpre, hb, Option.isNone_none, if_true]
      exact ⟨_, rfl, le_max_left _ _⟩
    · simp only [ratchet, hpre, Option.isNone_none, if_true, Option.isSome_some]
  · have hsame : (c.ratchet smoothed).bestGoodput = c.bestGoodput := by
      simp only [ratchet, hpre, Option.isNone_some, Bool.false_eq_true, if_false]
    exact ⟨hsame ▸ .refl _, fun h => (by cases h), fun _ _ => hsame⟩

/-- A window without pressure has one of the listed effects. -/
theorem act_effect (hclear : sample.pressed c.config = false) (hauto : c.manualOverride = false) :
    Effect c sample current now
      (((c.observe sample).ratchet (c.smooth sample)).act current now).1
      (((c.observe sample).ratchet (c.smooth sample)).act current now).2 := by
  obtain ⟨hraised, hsome, hkept⟩ := ratchet_best (c := c.observe sample) (c.smooth sample)
  rw [act]
  split
  · exact .held ⟨rfl, rfl, rfl, rfl⟩ rfl hraised (.inl rfl)
  next hcool =>
  have hclear : Clear c sample now := ⟨hclear, Bool.eq_false_iff.mpr hcool, hauto⟩
  split
  · exact .held ⟨rfl, rfl, rfl, rfl⟩ rfl hraised (.inl rfl)
  split
  · next pre hpre =>
    have hbest := hkept pre hpre
    rw [evaluate]
    simp only
    split
    · next hgain =>
      rw [hbest] at hgain
      split
      · next hlt =>
        exact .kept ⟨rfl, rfl, rfl, rfl⟩ hclear hpre rfl hgain rfl (.inl ⟨rfl, hlt, rfl⟩)
      · exact .kept ⟨rfl, rfl, rfl, rfl⟩ hclear hpre rfl hgain rfl (.inr ⟨rfl, rfl⟩)
    · split
      · exact .reverted ⟨rfl, rfl, rfl, rfl⟩ hpre rfl hbest rfl (fun _ _ => rfl) nofun
      · next hle =>
        exact .reverted ⟨rfl, rfl, rfl, rfl⟩ hpre rfl hbest rfl (fun _ h => absurd h hle) nofun
  · next hpre =>
    rw [probe]
    split
    · next hlt =>
      exact .probed ⟨rfl, rfl, rfl, rfl⟩ hclear hpre hlt rfl (hsome hpre) hraised rfl
    · exact .held ⟨rfl, rfl, rfl, rfl⟩ rfl hraised (.inl rfl)

/-- **What a window can do.** -/
theorem decide_effect (c : AdaptiveController) (sample : WindowSample) (current : ℕ) (now : ℚ) :
    Effect c sample current now (c.decide sample current now).1 (c.decide sample current now).2 := by
  rw [decide]
  split
  · exact .held ⟨rfl, rfl, rfl, rfl⟩ rfl (.refl _) (.inl rfl)
  next hauto =>
  split
  · exact .held ⟨rfl, rfl, rfl, rfl⟩ rfl (.refl _) (.inl rfl)
  split
  · exact respond_effect
  next hclear =>
  exact act_effect (Bool.eq_false_iff.mpr hclear) (Bool.eq_false_iff.mpr hauto)

theorem Effect.frame (h : Effect c sample current now d c') : Frame c c' := by
  cases h <;> assumption

/-- No upward probe without the conditions of one. -/
theorem Effect.clear (h : Effect c sample current now .probeUp c') :
    Clear c sample now ∧ current < c.max ∧ c'.preProbeLevel = some current ∧ Cooled c c' now := by
  cases h with
  | reverted _ _ _ _ _ _ hd => exact absurd rfl hd
  | kept _ hclear _ _ _ hcool hd =>
    rcases hd with ⟨-, hlt, hpre⟩ | ⟨hd, -⟩
    · exact ⟨hclear, hlt, hpre, hcool⟩
    · cases hd
  | probed _ hclear _ hlt hpre _ _ hcool => exact ⟨hclear, hlt, hpre, hcool⟩

/-- A window that does not hold begins a cooldown. -/
theorem Effect.cooled (h : Effect c sample current now d c') (hd : d ≠ .hold) : Cooled c c' now := by
  cases h with
  | held => exact absurd rfl hd
  | reduced _ _ _ _ hcool => exact hcool
  | reverted _ _ _ _ hcool => exact hcool
  | kept _ _ _ _ _ hcool => exact hcool
  | probed _ _ _ _ _ _ _ hcool => exact hcool

theorem Effect.cooldown (h : Effect c sample current now d c') :
    c'.cooldownUntil = c.cooldownUntil ∨ Cooled c c' now := by
  cases h with
  | held _ _ _ hcool => exact hcool
  | reduced _ _ _ _ hcool => exact .inr hcool
  | reverted _ _ _ _ hcool => exact .inr hcool
  | kept _ _ _ _ _ hcool => exact .inr hcool
  | probed _ _ _ _ _ _ _ hcool => exact .inr hcool

/-- A gain of at least the band raises the reference by that share of it. -/
theorem gain_spec {band smoothed reference : ℚ} (hband : 0 ≤ band)
    (h : band ≤ gain smoothed reference) :
    reference ≤ smoothed ∧ reference + band * reference ≤ smoothed := by
  have hpos : (0 : ℚ) < Max.max reference f64Epsilon :=
    lt_of_lt_of_le (by norm_num [f64Epsilon]) (le_max_right _ _)
  rw [gain, le_div_iff₀ hpos] at h
  have hnonneg := mul_nonneg hband hpos.le
  have hmax := mul_le_mul_of_nonneg_left (le_max_left reference f64Epsilon) hband
  exact ⟨by linarith, by linarith⟩

end AdaptiveController

/-! ### Runs -/

/-- The controller, the desired number of workers, and the clock. -/
structure AdaptiveRun where
  controller : AdaptiveController
  level : ℕ
  clock : ℚ

/-- A window ends, or the user takes over. -/
inductive AdaptiveEvent
  /-- A window ends, and its decision is applied. -/
  | window (sample : WindowSample) (now : ℚ)
  /-- `manual_override`. -/
  | override

/-- What the controller decides in a window. -/
def AdaptiveRun.decision (s : AdaptiveRun) (sample : WindowSample) (now : ℚ) : Decision :=
  (s.controller.decide sample s.level now).1

/-- One event. -/
def adaptiveStep (s : AdaptiveRun) : AdaptiveEvent → Option AdaptiveRun
  | .window sample now =>
      if s.clock ≤ now then
        let (decision, controller) := s.controller.decide sample s.level now
        some ⟨controller, controller.apply decision s.level, now⟩
      else none
  | .override => some { s with controller := { s.controller with manualOverride := true } }

/-- A controller for the bounds, and a level within them. -/
structure AdaptiveRun.Starts (config : AdaptiveConfig) (min max : ℕ) (s : AdaptiveRun) : Prop where
  controller : s.controller = .new config min max
  min_le : s.controller.min ≤ s.level
  le_max : s.level ≤ s.controller.max

theorem AdaptiveController.apply_probeUp {c : AdaptiveController} {current : ℕ}
    (hmin : c.min ≤ current) (hlt : current < c.max) : c.apply .probeUp current = current + 1 := by
  show Min.min (Max.max (current + 1) c.min) c.max = current + 1
  omega

theorem AdaptiveController.apply_reduce {c : AdaptiveController} {current : ℕ}
    (hmin : c.min ≤ current) (hmax : current ≤ c.max) :
    c.apply .reduce current = Max.max (current - 1) c.min := by
  show Min.min (Max.max (current - 1) c.min) c.max = Max.max (current - 1) c.min
  omega

namespace AdaptiveRun

/-- The level is within the bounds, and one above the level of a probe in
flight, which has a reference to be compared with. -/
structure Steady (config : AdaptiveConfig) (min max : ℕ) (s : AdaptiveRun) : Prop where
  config_eq : s.controller.config = config
  min_eq : s.controller.min = Max.max min 1
  max_eq : s.controller.max = Max.max max (Max.max min 1)
  min_le : s.controller.min ≤ s.level
  le_max : s.level ≤ s.controller.max
  probing : ∀ pre, s.controller.preProbeLevel = some pre →
    s.level = pre + 1 ∧ s.controller.min ≤ pre ∧ s.controller.bestGoodput.isSome = true

variable {config : AdaptiveConfig} {min max : ℕ} {s s' t : AdaptiveRun} {sample : WindowSample}
variable {now : ℚ}

theorem Steady.of_starts (h : s.Starts config min max) : s.Steady config min max := by
  refine ⟨?_, ?_, ?_, h.min_le, h.le_max, fun pre hpre => ?_⟩
  · rw [h.controller]
    rfl
  · rw [h.controller]
    rfl
  · rw [h.controller]
    rfl
  · rw [h.controller] at hpre
    cases hpre

/-- A window's decision and the state it leads to. -/
theorem window_eq (h : adaptiveStep s (.window sample now) = some s') :
    s.clock ≤ now ∧ s'.clock = now ∧
      s'.level = s'.controller.apply (s.decision sample now) s.level ∧
      s.controller.Effect sample s.level now (s.decision sample now) s'.controller := by
  simp only [adaptiveStep] at h
  split_ifs at h with hclock
  rw [← Option.some.inj h]
  exact ⟨hclock, rfl, rfl, s.controller.decide_effect sample s.level now⟩

/-- The level after a decision. -/
theorem level_of_decision {d : Decision} {c : AdaptiveController} (h : s.Steady config min max)
    (heffect : s.controller.Effect sample s.level now d c) :
    (d = .hold ∧ c.apply d s.level = s.level) ∨
      (d = .probeUp ∧ s.level < c.max ∧ c.apply d s.level = s.level + 1) ∨
      (d = .reduce ∧ c.apply d s.level = Max.max (s.level - 1) c.min) := by
  have hframe := heffect.frame
  have hmin : c.min ≤ s.level := hframe.min ▸ h.min_le
  have hmax : s.level ≤ c.max := hframe.max ▸ h.le_max
  cases d with
  | hold => exact .inl ⟨rfl, rfl⟩
  | probeUp =>
    have hlt : s.level < c.max := hframe.max ▸ heffect.clear.2.1
    exact .inr (.inl ⟨rfl, hlt, AdaptiveController.apply_probeUp hmin hlt⟩)
  | reduce => exact .inr (.inr ⟨rfl, AdaptiveController.apply_reduce hmin hmax⟩)

/-- A probe that begins is one below the level it leads to. -/
theorem Steady.probing_after (h : s.Steady config min max) {d : Decision} {c : AdaptiveController}
    (heffect : s.controller.Effect sample s.level now d c) (pre : ℕ)
    (hpre : c.preProbeLevel = some pre) :
    c.apply d s.level = pre + 1 ∧ c.min ≤ pre ∧ c.bestGoodput.isSome = true := by
  have hframe := heffect.frame
  have hup : ∀ {best : ℚ}, d = .probeUp → c.bestGoodput = some best →
      c.apply d s.level = pre + 1 ∧ c.min ≤ pre ∧ c.bestGoodput.isSome = true := by
    rintro best rfl hbest
    obtain ⟨-, hlt, hsome, -⟩ := heffect.clear
    obtain rfl : s.level = pre := Option.some.inj (hsome.symm.trans hpre)
    have hmin : c.min ≤ s.level := hframe.min ▸ h.min_le
    exact ⟨AdaptiveController.apply_probeUp hmin (hframe.max ▸ hlt), hmin, by rw [hbest]; rfl⟩
  cases heffect with
  | held _ hsame hraised _ =>
    obtain ⟨hlevel, hmin, hsome⟩ := h.probing pre (hsame ▸ hpre)
    obtain ⟨best, hbest⟩ := Option.isSome_iff_exists.mp hsome
    obtain ⟨best', hbest', -⟩ := hraised best hbest
    exact ⟨hlevel, hframe.min ▸ hmin, by rw [hbest']; rfl⟩
  | reduced _ _ hnone => 
    rw [hnone] at hpre
    cases hpre
  | reverted _ _ hnone =>
    rw [hnone] at hpre
    cases hpre
  | kept _ _ _ hbest _ _ hd =>
    rcases hd with ⟨rfl, -, -⟩ | ⟨-, hnone⟩
    · exact hup rfl hbest
    · rw [hnone] at hpre
      cases hpre
  | probed _ _ _ _ _ hsome =>
    obtain ⟨best, hbest⟩ := Option.isSome_iff_exists.mp hsome
    exact hup rfl hbest

/-- **The level stays within the bounds**, whatever the windows measure. -/
theorem Steady.step {e : AdaptiveEvent} (h : s.Steady config min max)
    (hs : adaptiveStep s e = some s') : s'.Steady config min max := by
  cases e with
  | override =>
    cases hs
    exact ⟨h.config_eq, h.min_eq, h.max_eq, h.min_le, h.le_max, h.probing⟩
  | window sample now =>
    obtain ⟨-, -, hlevel, heffect⟩ := window_eq hs
    have hframe := heffect.frame
    have hmin := h.min_le
    have hmax := h.le_max
    have hbounds : s'.controller.min ≤ s'.level ∧ s'.level ≤ s'.controller.max := by
      rw [← hframe.min] at hmin
      rw [← hframe.max] at hmax
      rcases level_of_decision h heffect with ⟨-, heq⟩ | ⟨-, hlt, heq⟩ | ⟨-, heq⟩
      · rw [hlevel, heq]
        exact ⟨hmin, hmax⟩
      · rw [hlevel, heq]
        exact ⟨by omega, by omega⟩
      · rw [hlevel, heq]
        exact ⟨le_max_right _ _, by omega⟩
    refine ⟨hframe.config.trans h.config_eq, hframe.min.trans h.min_eq, hframe.max.trans h.max_eq,
      hbounds.1, hbounds.2, fun pre hpre => ?_⟩
    rw [hlevel]
    exact h.probing_after heffect pre hpre

/-! ### Whole runs -/

/-- What a window does to the level and to the reference. -/
structure WindowSafe (s s' : AdaptiveRun) (sample : WindowSample) (now : ℚ) : Prop where
  up_one : s'.level ≤ s.level + 1
  down_one : s.level ≤ s'.level + 1
  /-- No upward probe under pressure of any kind or in a cooldown. -/
  clear : s.decision sample now = .probeUp →
    sample.underPressure s.controller.config = false ∧
      sample.storagePressure s.controller.config = false ∧
      sample.resourcePressure s.controller.config = false ∧ s.controller.inCooldown now = false
  raised : AdaptiveController.Raised s.controller.bestGoodput s'.controller.bestGoodput
  /-- A probe that is over and not taken back has raised the reference. -/
  kept : ∀ pre, s.controller.preProbeLevel = some pre → s'.controller.preProbeLevel ≠ some pre →
    s.level ≤ s'.level → ∃ best ∈ s.controller.bestGoodput, ∃ best' ∈ s'.controller.bestGoodput,
      best + s.controller.config.materialGainBand * best ≤ best'

/-- **One window moves the level by one at most.** -/
theorem Steady.level_step (h : s.Steady config min max)
    (hs : adaptiveStep s (.window sample now) = some s') :
    s'.level ≤ s.level + 1 ∧ s.level ≤ s'.level + 1 := by
  obtain ⟨-, -, hlevel, heffect⟩ := window_eq hs
  have hmin : s'.controller.min ≤ s.level := heffect.frame.min ▸ h.min_le
  rcases level_of_decision h heffect with ⟨-, heq⟩ | ⟨-, -, heq⟩ | ⟨-, heq⟩
  · rw [hlevel, heq]
    exact ⟨Nat.le_succ _, Nat.le_succ _⟩
  · rw [hlevel, heq]
    exact ⟨le_rfl, by omega⟩
  · rw [hlevel, heq]
    exact ⟨by omega, by omega⟩

/-- A probe that is kept has a reference, and the gain was measured against it. -/
theorem Steady.reference_of_probe (h : s.Steady config min max) {pre : ℕ}
    (hpre : s.controller.preProbeLevel = some pre) :
    ∃ best, s.controller.bestGoodput = some best :=
  Option.isSome_iff_exists.mp (h.probing pre hpre).2.2

/-- No window lowers the best goodput that is remembered. -/
theorem Steady.raised (h : s.Steady config min max) (hband : 0 ≤ config.materialGainBand)
    {d : Decision} {c : AdaptiveController}
    (heffect : s.controller.Effect sample s.level now d c) :
    AdaptiveController.Raised s.controller.bestGoodput c.bestGoodput := by
  have hsame : ∀ {best : Option ℚ}, best = s.controller.bestGoodput →
      AdaptiveController.Raised s.controller.bestGoodput best := fun heq => heq ▸ .refl _
  cases heffect with
  | held _ _ hraised => exact hraised
  | reduced _ _ _ hbest => exact hsame hbest
  | reverted _ _ _ hbest => exact hsame hbest
  | kept _ _ hpre hbest hgain =>
    obtain ⟨best, hold⟩ := h.reference_of_probe hpre
    rw [hold, Option.getD_some, h.config_eq] at hgain
    intro b hb
    rw [hold, Option.mem_some_iff] at hb
    subst hb
    exact ⟨_, hbest, (AdaptiveController.gain_spec hband hgain).1⟩
  | probed _ _ _ _ _ _ hraised => exact hraised

/-- **A probe that is kept has paid off**: the best goodput went up by the gain
band. -/
theorem Steady.kept (h : s.Steady config min max) (hband : 0 ≤ config.materialGainBand)
    (hs : adaptiveStep s (.window sample now) = some s') {pre : ℕ}
    (hpre : s.controller.preProbeLevel = some pre)
    (hover : s'.controller.preProbeLevel ≠ some pre) (hup : s.level ≤ s'.level) :
    ∃ best ∈ s.controller.bestGoodput, ∃ best' ∈ s'.controller.bestGoodput,
      best + s.controller.config.materialGainBand * best ≤ best' := by
  obtain ⟨-, -, hlevel, heffect⟩ := window_eq hs
  obtain ⟨hprobed, hmin, -⟩ := h.probing pre hpre
  have hlevels := level_of_decision h heffect
  have hbelow : s'.controller.min ≤ pre := heffect.frame.min ▸ hmin
  generalize s.decision sample now = d at hlevel heffect hlevels
  cases heffect with
  | held _ hsame => exact absurd (hsame.trans hpre) hover
  | reduced _ hnone =>
    rw [hnone] at hpre
    cases hpre
  | reverted _ hpre' _ _ _ hreduce =>
    -- the level is one above the one the probe left, and so it was taken back
    obtain rfl := Option.some.inj (hpre'.symm.trans hpre)
    obtain rfl : d = .reduce := hreduce (by omega) (by omega)
    rcases hlevels with ⟨hd, -⟩ | ⟨hd, -⟩ | ⟨-, heq⟩
    · cases hd
    · cases hd
    · omega
  | kept _ _ _ hbest hgain =>
    obtain ⟨best, hold⟩ := h.reference_of_probe hpre
    rw [hold, Option.getD_some] at hgain
    rw [h.config_eq] at hgain ⊢
    exact ⟨best, hold, _, hbest, (AdaptiveController.gain_spec hband hgain).2⟩
  | probed _ _ hnone =>
    rw [hnone] at hpre
    cases hpre

/-- **What a window may do.** -/
theorem Steady.windowSafe (h : s.Steady config min max) (hband : 0 ≤ config.materialGainBand)
    (hs : adaptiveStep s (.window sample now) = some s') : WindowSafe s s' sample now := by
  obtain ⟨-, -, -, heffect⟩ := window_eq hs
  obtain ⟨hup, hdown⟩ := h.level_step hs
  refine ⟨hup, hdown, fun hd => ?_, h.raised hband heffect, fun pre => h.kept hband hs⟩
  rw [hd] at heffect
  have hclear := heffect.clear.1
  have hpressed := hclear.unpressed
  rw [WindowSample.pressed, Bool.or_eq_false_iff, Bool.or_eq_false_iff] at hpressed
  exact ⟨hpressed.1.1, hpressed.1.2, hpressed.2, hclear.uncooled⟩

/-- The cooldown lasts until `until` at least, and so will any that begins later. -/
structure CoolsUntil (config : AdaptiveConfig) (u : ℚ) (s : AdaptiveRun) : Prop where
  config_eq : s.controller.config = config
  cooling : ∃ v ∈ s.controller.cooldownUntil, u ≤ v
  later : u ≤ s.clock + config.cooldown

/-- No window ends a cooldown before its time. -/
theorem CoolsUntil.step {u : ℚ} {e : AdaptiveEvent} (h : s.CoolsUntil config u)
    (hs : adaptiveStep s e = some s') : s'.CoolsUntil config u := by
  cases e with
  | override =>
    cases hs
    exact ⟨h.config_eq, h.cooling, h.later⟩
  | window sample now =>
    obtain ⟨hclock, hnow, -, heffect⟩ := window_eq hs
    have hlater : u ≤ now + config.cooldown := by
      have hle := h.later
      linarith
    refine ⟨heffect.frame.config.trans h.config_eq, ?_, hnow ▸ hlater⟩
    rcases heffect.cooldown with hsame | hcooled
    · rw [hsame]
      exact h.cooling
    · rw [AdaptiveController.Cooled, h.config_eq] at hcooled
      exact ⟨_, hcooled, hlater⟩

/-- Between a change of the level and the next probe a cooldown passes. -/
theorem Steady.spaced (h : s.Steady config min max)
    (hs : adaptiveStep s (.window sample now) = some s') (hchanged : s'.level ≠ s.level)
    {es : List AdaptiveEvent} (hrun : runEvents adaptiveStep s' es = some t)
    {sample' : WindowSample} {now' : ℚ} (hprobe : t.decision sample' now' = .probeUp) :
    now + config.cooldown ≤ now' := by
  obtain ⟨-, hnow, hlevel, heffect⟩ := window_eq hs
  have hd : s.decision sample now ≠ .hold := by
    intro hhold
    rw [hhold] at hlevel
    exact hchanged hlevel
  have hcooled := heffect.cooled hd
  rw [AdaptiveController.Cooled, h.config_eq] at hcooled
  have hbegun : s'.CoolsUntil config (now + config.cooldown) :=
    ⟨heffect.frame.config.trans h.config_eq, ⟨_, hcooled, le_rfl⟩, hnow ▸ le_rfl⟩
  have hreach : Reach adaptiveStep (fun _ _ => True) (· = s') t :=
    .of_run (.start rfl) runOk_true hrun
  have ht : t.CoolsUntil config (now + config.cooldown) :=
    hreach.invariant (fun _ h₀ => h₀ ▸ hbegun) fun _ _ _ hc _ hs => hc.step hs
  obtain ⟨v, hv, hle⟩ := ht.cooling
  have heffect' := t.controller.decide_effect sample' t.level now'
  rw [show (t.controller.decide sample' t.level now').1 = .probeUp from hprobe] at heffect'
  have huncooled := heffect'.clear.1.uncooled
  rw [AdaptiveController.inCooldown, Option.mem_def.mp hv, Option.any_some,
    decide_eq_false_iff_not, not_lt] at huncooled
  exact hle.trans huncooled

/-- After an override no window decides anything. -/
theorem hold_after_override (hs : adaptiveStep s .override = some s') {es : List AdaptiveEvent}
    (hrun : runEvents adaptiveStep s' es = some t) (sample' : WindowSample) (now' : ℚ) :
    t.decision sample' now' = .hold := by
  have hreach : Reach adaptiveStep (fun _ _ => True) (· = s') t :=
    .of_run (.start rfl) runOk_true hrun
  have hmanual : t.controller.manualOverride = true := by
    refine hreach.invariant (I := fun r => r.controller.manualOverride = true)
      (fun _ h₀ => ?_) fun r e r' hr _ hstep => ?_
    · cases hs
      rw [h₀]
    · cases e with
      | override =>
        cases hstep
        rfl
      | window sample now =>
        obtain ⟨-, -, -, heffect⟩ := window_eq hstep
        exact heffect.frame.manualOverride.trans hr
  rw [decision, AdaptiveController.decide, if_pos hmanual]

end AdaptiveRun

/-- **Adaptive concurrency is safe.**  In every run the level stays within its
bounds, every window is safe, a cooldown passes between a change of the level and
the next upward probe, and after an override there is none. -/
theorem adaptive_concurrency_safe {config : AdaptiveConfig}
    (hband : 0 ≤ config.materialGainBand) {min max : ℕ} {s : AdaptiveRun}
    (h : Reach adaptiveStep (fun _ _ => True) (AdaptiveRun.Starts config min max) s) :
    (Max.max min 1 ≤ s.level ∧ s.level ≤ Max.max max (Max.max min 1)) ∧
      (∀ sample now s', adaptiveStep s (.window sample now) = some s' →
        AdaptiveRun.WindowSafe s s' sample now ∧
        (s'.level ≠ s.level → ∀ es t, runEvents adaptiveStep s' es = some t →
          ∀ sample' now', t.decision sample' now' = .probeUp →
            now + config.cooldown ≤ now')) ∧
      ∀ s', adaptiveStep s .override = some s' →
        ∀ es t, runEvents adaptiveStep s' es = some t →
          ∀ sample now, t.decision sample now ≠ .probeUp := by
  have hsteady : s.Steady config min max :=
    h.invariant (fun _ h₀ => .of_starts h₀) fun _ _ _ hs _ hstep => hs.step hstep
  refine ⟨?_, fun sample now s' hs => ⟨hsteady.windowSafe hband hs, ?_⟩, ?_⟩
  · rw [← hsteady.max_eq, ← hsteady.min_eq]
    exact ⟨hsteady.min_le, hsteady.le_max⟩
  · intro hchanged es t hrun sample' now' hprobe
    exact hsteady.spaced hs hchanged hrun hprobe
  · intro s' hs es t hrun sample now hprobe
    rw [AdaptiveRun.hold_after_override hs hrun] at hprobe
    cases hprobe

/-- After one window of baseline the next one probes, and the theorem is about it. -/
theorem adaptive_concurrency_safe_probe : ∃ (s s' : AdaptiveRun) (sample : WindowSample),
    s.level = 1 ∧ adaptiveStep s (.window sample 2) = some s' ∧
      s.decision sample 2 = .probeUp ∧ AdaptiveRun.WindowSafe s s' sample 2 := by
  let sample : WindowSample :=
    ⟨1000, 1000, 0, 0, 0, none, none, 0, none, none, 10 ^ 9⟩
  let start : AdaptiveRun := ⟨.new .default 1 8, 1, 0⟩
  let s := (runEvents adaptiveStep start [.window sample 1]).getD start
  have hfirst : runEvents adaptiveStep start [.window sample 1] = some s := by
    refine (Option.getD_of_ne_none (Option.isSome_iff_ne_none.mp ?_) start).symm
    decide +kernel
  have hsecond : (adaptiveStep s (.window sample 2)).isSome = true := by
    decide +kernel
  have hreach : Reach adaptiveStep (fun _ _ => True) (AdaptiveRun.Starts .default 1 8) s :=
    .of_run (.start ⟨rfl, by decide, by decide⟩) runOk_true hfirst
  have hstep := (Option.some_get hsecond).symm
  have hband : 0 ≤ AdaptiveConfig.default.materialGainBand := by
    decide +kernel
  have hsafe := (adaptive_concurrency_safe hband hreach).2.1 sample 2 _ hstep
  exact ⟨s, _, sample, by decide +kernel, hstep, by decide +kernel, hsafe.1⟩

end KDown
