/-
KDown/OriginRegistry.lean

The origin registry (control/origin.rs): request slots and a shared throttle
deadline for each origin, in entries that are created on demand and evicted
when they are idle.

An entry lives as long as somebody refers to it: evicted entries stay in the
heap here, and a call keeps the number of the entry it has looked up.  What
happens under the registry's mutex is one step; every other atomic access, the
slot semaphore and the clock are steps of their own.  `HashMap` iterates in no
order, so the event of a lookup says which entries the size cap evicts, and the
step checks that each of them is a least recently touched idle one.
-/
import KDown.FairSemaphore
import KDown.Runs
import Mathlib.Algebra.Order.Ring.Nat
import Mathlib.Data.Nat.Notation
import Mathlib.Logic.Function.Basic

namespace KDown

/-- What the registry knows of an origin. -/
structure OriginEntry where
  slots : FairSemaphore ℕ
  capacity : ℕ
  /-- Shared throttle deadline in milliseconds; zero is none. -/
  backoffUntil : ℕ
  throttleEvents : ℕ
  successEvents : ℕ
  lastActive : ℕ
  deriving DecidableEq, Repr

/-- An origin that nobody has used. -/
def OriginEntry.new (capacity now : ℕ) : OriginEntry where
  slots := .new (max capacity 1)
  capacity := max capacity 1
  backoffUntil := 0
  throttleEvents := 0
  successEvents := 0
  lastActive := now

/-- The permits that are out. -/
def OriginEntry.inFlight (e : OriginEntry) : ℕ := e.capacity - e.slots.available

/-- Where an admission stands, between its accesses to shared state. -/
inductive AdmitPhase
  | unused
  | lookingUp
  /-- About to load the deadline of its entry. -/
  | loading (entry : ℕ)
  /-- About to compare what it loaded with the clock. -/
  | comparing (entry deadline : ℕ)
  | sleeping (entry : ℕ)
  | acquiring (entry : ℕ)
  | queued (entry : ℕ)
  /-- Has a slot, about to return the permit. -/
  | granted (entry : ℕ)
  /-- The permit is alive; without a slot in a disabled registry. -/
  | holding (entry : ℕ) (slot : Bool)
  | ended
  deriving DecidableEq, Repr

/-- A call of `admit`. -/
structure AdmitCall where
  key : String
  phase : AdmitPhase
  deriving DecidableEq, Repr

/-- What is reported of an origin. -/
inductive OriginReport
  /-- `report_throttle`, in milliseconds. -/
  | throttle (cappedRetryAfter : Option ℕ) (fallbackDelay : ℕ)
  | success
  deriving DecidableEq, Repr

/-- Where a report stands. -/
inductive ReportPhase
  | unused
  | lookingUp
  /-- About to count the event. -/
  | counting (entry : ℕ)
  /-- About to read the clock. -/
  | timing (entry : ℕ)
  | loading (entry deadline : ℕ)
  /-- In its exchange loop, with the deadline it saw last. -/
  | exchanging (entry deadline current : ℕ)
  | touching (entry : ℕ)
  | finished
  deriving DecidableEq, Repr

/-- A call of `report_throttle` or `report_success`. -/
structure ReportCall where
  key : String
  report : OriginReport
  phase : ReportPhase
  deriving DecidableEq, Repr

/-- The registry, its entries on a heap, and the calls on it. -/
structure OriginRegistry where
  capacityPerOrigin : ℕ
  maxEntries : ℕ
  idleTtl : ℕ
  disabled : Bool
  /-- The map: keys, each with the number of its entry. -/
  entries : List (String × ℕ)
  heap : ℕ → OriginEntry
  /-- Entries created so far. -/
  created : ℕ
  clock : ℕ
  admits : ℕ → AdmitCall
  admitCount : ℕ
  reports : ℕ → ReportCall
  reportCount : ℕ
  /-- The latest deadline of finished throttle reports. -/
  reported : String → ℕ
  /-- Permits returned: the key, when, and the latest deadline reported by
  then. -/
  log : List (String × ℕ × ℕ)

/-- A tick of the clock, a call that begins or goes on, or a permit that comes
back. -/
inductive OriginEvent
  | tick (now : ℕ)
  | admitCall (key : String)
  /-- `entry` for an admission; `victims` go by the size cap. -/
  | admitLookup (c : ℕ) (victims : List String)
  | admitNext (c : ℕ)
  /-- The sleep ends. -/
  | wake (c : ℕ)
  | cancel (c : ℕ)
  | dropPermit (c : ℕ)
  | report (key : String) (report : OriginReport)
  | reportLookup (r : ℕ) (victims : List String)
  | reportNext (r : ℕ)
  | evictIdle
  deriving DecidableEq, Repr

namespace OriginRegistry

variable {s s' : OriginRegistry}

/-- A registry that knows no origin. -/
def new (capacityPerOrigin maxEntries idleTtl : ℕ) (disabled : Bool) : OriginRegistry where
  capacityPerOrigin := max capacityPerOrigin 1
  maxEntries := max maxEntries 1
  idleTtl := idleTtl
  disabled := disabled
  entries := []
  heap := fun _ => .new 1 0
  created := 0
  clock := 0
  admits := fun _ => ⟨"", .unused⟩
  admitCount := 0
  reports := fun _ => ⟨"", .success, .unused⟩
  reportCount := 0
  reported := fun _ => 0
  log := []

/-- The entry on the heap is replaced. -/
def setEntry (s : OriginRegistry) (id : ℕ) (e : OriginEntry) : OriginRegistry :=
  { s with heap := Function.update s.heap id e }

/-- The admission moves on. -/
def setAdmit (s : OriginRegistry) (c : ℕ) (ph : AdmitPhase) : OriginRegistry :=
  { s with admits := Function.update s.admits c { s.admits c with phase := ph } }

/-- The report moves on. -/
def setReport (s : OriginRegistry) (r : ℕ) (ph : ReportPhase) : OriginRegistry :=
  { s with reports := Function.update s.reports r { s.reports r with phase := ph } }

/-! ### The map -/

/-- `evict_idle_entries` keeps the entry. -/
def isKept (s : OriginRegistry) (id : ℕ) : Bool :=
  0 < (s.heap id).inFlight || s.clock - s.idleTtl < (s.heap id).lastActive

/-- The keys whose entries are kept. -/
def evictIdleEntries (s : OriginRegistry) (map : List (String × ℕ)) : List (String × ℕ) :=
  map.filter fun x => s.isKept x.2

/-- The entry may go by the size cap: idle, and no idle entry was touched
before it. -/
def IsVictim (s : OriginRegistry) (map : List (String × ℕ)) (id : ℕ) : Prop :=
  (s.heap id).inFlight = 0 ∧
    ∀ x ∈ map, (s.heap x.2).inFlight = 0 → (s.heap id).lastActive ≤ (s.heap x.2).lastActive

instance (s : OriginRegistry) (map : List (String × ℕ)) (id : ℕ) : Decidable (s.IsVictim map id) :=
  inferInstanceAs (Decidable (_ ∧ ∀ x ∈ map, (s.heap x.2).inFlight = 0 → _))

/-- The size cap evicts `victims`, and no more are left to go. -/
def evictOver (s : OriginRegistry) (map : List (String × ℕ)) :
    List String → Option (List (String × ℕ))
  | [] =>
      if map.length < s.maxEntries ∨ ∀ x ∈ map, (s.heap x.2).inFlight ≠ 0 then some map else none
  | victim :: victims =>
      match map.lookup victim with
      | none => none
      | some id =>
          if s.maxEntries ≤ map.length ∧ s.IsVictim map id then
            s.evictOver (map.filter fun x => x.1 ≠ victim) victims
          else none

/-- What is left of the map when a new key comes. -/
def evicted (s : OriginRegistry) (victims : List String) : Option (List (String × ℕ)) :=
  s.evictOver (if s.maxEntries ≤ s.entries.length then s.evictIdleEntries s.entries else s.entries)
    victims

/-- The entry was used now. -/
def touch (s : OriginRegistry) (id : ℕ) : OriginRegistry :=
  s.setEntry id { s.heap id with lastActive := s.clock }

/-- A new entry for `key`, next to what is left of the map. -/
def create (s : OriginRegistry) (key : String) (map : List (String × ℕ)) : OriginRegistry :=
  { s.setEntry s.created (.new s.capacityPerOrigin s.clock) with
    entries := map ++ [(key, s.created)]
    created := s.created + 1 }

/-- `entry`: get or create the entry for `key`. -/
def entry (s : OriginRegistry) (key : String) (victims : List String) :
    Option (OriginRegistry × ℕ) :=
  match s.entries.lookup key with
  | some id => if victims = [] then some (s.touch id, id) else none
  | none => (s.evicted victims).map fun map => (s.create key map, s.created)

/-! ### Calls -/

/-- A slot of entry `id` is released. -/
def releaseSlot (s : OriginRegistry) (id : ℕ) : OriginRegistry :=
  let s' := s.setEntry id { s.heap id with slots := (s.heap id).slots.handOver.1 }
  match (s.heap id).slots.handOver.2 with
  | none => s'
  | some c => s'.setAdmit c (.granted id)

/-- `admit` returns its permit. -/
def returnPermit (s : OriginRegistry) (c id : ℕ) (slot : Bool) : OriginRegistry :=
  { (s.touch id).setAdmit c (.holding id slot) with
    log := s.log ++ [((s.admits c).key, s.clock, s.reported (s.admits c).key)] }

/-- An entry with one slot less. -/
def takeSlot (s : OriginRegistry) (id : ℕ) : OriginRegistry :=
  s.setEntry id { s.heap id with
    slots := { (s.heap id).slots with available := (s.heap id).slots.available - 1 } }

/-- The next step of an admission. -/
def admitStep (s : OriginRegistry) (c : ℕ) : AdmitPhase → Option OriginRegistry
  | .loading id =>
      if s.disabled then some (s.returnPermit c id false)
      else some (s.setAdmit c (.comparing id (s.heap id).backoffUntil))
  | .comparing id deadline =>
      some (s.setAdmit c (if 0 < deadline - s.clock then .sleeping id else .acquiring id))
  | .acquiring id =>
      if 0 < (s.heap id).slots.available then
        some ((s.takeSlot id).setAdmit c (.granted id))
      else
        some ((s.setEntry id { s.heap id with slots := (s.heap id).slots.enqueue c }).setAdmit c
          (.queued id))
  | .granted id => some (s.returnPermit c id true)
  | _ => none

/-- An admission is dropped: it leaves the queue, or returns its permit. -/
def cancelStep (s : OriginRegistry) (c : ℕ) : AdmitPhase → Option OriginRegistry
  | .sleeping _ => some (s.setAdmit c .ended)
  | .acquiring _ => some (s.setAdmit c .ended)
  | .queued id =>
      some ((s.setEntry id { s.heap id with slots := (s.heap id).slots.leave c }).setAdmit c .ended)
  | .granted id => some ((s.setAdmit c .ended).releaseSlot id)
  | _ => none

/-- `now + delay`, which saturates in 64 bits. -/
def throttleDeadline (now : ℕ) : OriginReport → ℕ
  | .throttle cappedRetryAfter fallbackDelay =>
      min (now + cappedRetryAfter.getD fallbackDelay % 2 ^ 64) (2 ^ 64 - 1)
  | .success => 0

/-- A throttle report has seen to it that the deadline is at least `deadline`. -/
def finishReport (s : OriginRegistry) (r deadline : ℕ) : OriginRegistry :=
  { s.setReport r .finished with
    reported := Function.update s.reported (s.reports r).key
      (max (s.reported (s.reports r).key) deadline) }

/-- The next step of a report. -/
def reportStep (s : OriginRegistry) (r : ℕ) : ReportPhase → Option OriginRegistry
  | .counting id =>
      match (s.reports r).report with
      | .throttle _ _ =>
          some ((s.setEntry id
            { s.heap id with throttleEvents := (s.heap id).throttleEvents + 1 }).setReport r (.timing id))
      | .success =>
          some ((s.setEntry id
            { s.heap id with successEvents := (s.heap id).successEvents + 1 }).setReport r
              (.touching id))
  | .timing id =>
      some (s.setReport r (.loading id (throttleDeadline s.clock (s.reports r).report)))
  | .loading id deadline =>
      some (s.setReport r (.exchanging id deadline (s.heap id).backoffUntil))
  | .exchanging id deadline current =>
      if deadline ≤ current then some (s.finishReport r deadline)
      else if (s.heap id).backoffUntil = current then
        some ((s.setEntry id { s.heap id with backoffUntil := deadline }).finishReport r deadline)
      else some (s.setReport r (.exchanging id deadline (s.heap id).backoffUntil))
  | .touching id => some ((s.touch id).setReport r .finished)
  | _ => none

/-- One event. -/
def step (s : OriginRegistry) : OriginEvent → Option OriginRegistry
  | .tick now => some { s with clock := now }
  | .admitCall key =>
      some { s with
        admits := Function.update s.admits s.admitCount ⟨key, .lookingUp⟩
        admitCount := s.admitCount + 1 }
  | .admitLookup c victims =>
      if (s.admits c).phase = .lookingUp then
        (s.entry (s.admits c).key victims).map fun x => x.1.setAdmit c (.loading x.2)
      else none
  | .admitNext c => s.admitStep c (s.admits c).phase
  | .wake c =>
      match (s.admits c).phase with
      | .sleeping id => some (s.setAdmit c (.loading id))
      | _ => none
  | .cancel c => s.cancelStep c (s.admits c).phase
  | .dropPermit c =>
      match (s.admits c).phase with
      | .holding id true => some ((s.setAdmit c .ended).releaseSlot id)
      | .holding _ false => some (s.setAdmit c .ended)
      | _ => none
  | .report key report =>
      some { s with
        reports := Function.update s.reports s.reportCount
          ⟨key, report, if s.disabled then .finished else .lookingUp⟩
        reportCount := s.reportCount + 1 }
  | .reportLookup r victims =>
      if (s.reports r).phase = .lookingUp then
        (s.entry (s.reports r).key victims).map fun x => x.1.setReport r (.counting x.2)
      else none
  | .reportNext r => s.reportStep r (s.reports r).phase
  | .evictIdle => some { s with entries := s.evictIdleEntries s.entries }

/-! ### What a step can be -/

/-- The same step as a relation, with one rule for each way it can go. -/
inductive OriginStep (s : OriginRegistry) : OriginEvent → OriginRegistry → Prop
  | tick (now : ℕ) : OriginStep s (.tick now) { s with clock := now }
  | admitCall (key : String) : OriginStep s (.admitCall key) { s with
      admits := Function.update s.admits s.admitCount ⟨key, .lookingUp⟩
      admitCount := s.admitCount + 1 }
  | found {c id : ℕ} (h : (s.admits c).phase = .lookingUp)
      (hl : s.entries.lookup (s.admits c).key = some id) :
      OriginStep s (.admitLookup c []) ((s.touch id).setAdmit c (.loading id))
  | made {c : ℕ} {victims : List String} {map : List (String × ℕ)}
      (h : (s.admits c).phase = .lookingUp) (hl : s.entries.lookup (s.admits c).key = none)
      (hm : s.evicted victims = some map) :
      OriginStep s (.admitLookup c victims)
        ((s.create (s.admits c).key map).setAdmit c (.loading s.created))
  | skip {c id : ℕ} (h : (s.admits c).phase = .loading id) (hd : s.disabled = true) :
      OriginStep s (.admitNext c) (s.returnPermit c id false)
  | load {c id : ℕ} (h : (s.admits c).phase = .loading id) :
      OriginStep s (.admitNext c) (s.setAdmit c (.comparing id (s.heap id).backoffUntil))
  | sleep {c id deadline : ℕ} (h : (s.admits c).phase = .comparing id deadline) :
      OriginStep s (.admitNext c) (s.setAdmit c (.sleeping id))
  | pass {c id deadline : ℕ} (h : (s.admits c).phase = .comparing id deadline)
      (hle : deadline ≤ s.clock) : OriginStep s (.admitNext c) (s.setAdmit c (.acquiring id))
  | acquire {c id : ℕ} (h : (s.admits c).phase = .acquiring id)
      (hpos : 0 < (s.heap id).slots.available) :
      OriginStep s (.admitNext c) ((s.takeSlot id).setAdmit c (.granted id))
  | enqueue {c id : ℕ} (h : (s.admits c).phase = .acquiring id) :
      OriginStep s (.admitNext c) ((s.setEntry id
        { s.heap id with slots := (s.heap id).slots.enqueue c }).setAdmit c (.queued id))
  | give {c id : ℕ} (h : (s.admits c).phase = .granted id) :
      OriginStep s (.admitNext c) (s.returnPermit c id true)
  | wake {c id : ℕ} (h : (s.admits c).phase = .sleeping id) :
      OriginStep s (.wake c) (s.setAdmit c (.loading id))
  | cancelEarly {c id : ℕ} (h : (s.admits c).phase = .sleeping id ∨ (s.admits c).phase = .acquiring id) :
      OriginStep s (.cancel c) (s.setAdmit c .ended)
  | cancelQueued {c id : ℕ} (h : (s.admits c).phase = .queued id) :
      OriginStep s (.cancel c) ((s.setEntry id
        { s.heap id with slots := (s.heap id).slots.leave c }).setAdmit c .ended)
  | release {c id : ℕ} {e : OriginEvent} (he : e = .cancel c ∨ e = .dropPermit c)
      (h : (s.admits c).phase = .granted id ∨ (s.admits c).phase = .holding id true) :
      OriginStep s e ((s.setAdmit c .ended).releaseSlot id)
  | dropUnslotted {c id : ℕ} (h : (s.admits c).phase = .holding id false) :
      OriginStep s (.dropPermit c) (s.setAdmit c .ended)
  | report (key : String) (report : OriginReport) (ph : ReportPhase)
      (hph : ph = .finished ∨ ph = .lookingUp) : OriginStep s (.report key report) { s with
        reports := Function.update s.reports s.reportCount ⟨key, report, ph⟩
        reportCount := s.reportCount + 1 }
  | reportFound {r id : ℕ} (h : (s.reports r).phase = .lookingUp)
      (hl : s.entries.lookup (s.reports r).key = some id) :
      OriginStep s (.reportLookup r []) ((s.touch id).setReport r (.counting id))
  | reportMade {r : ℕ} {victims : List String} {map : List (String × ℕ)}
      (h : (s.reports r).phase = .lookingUp) (hl : s.entries.lookup (s.reports r).key = none)
      (hm : s.evicted victims = some map) :
      OriginStep s (.reportLookup r victims)
        ((s.create (s.reports r).key map).setReport r (.counting s.created))
  | count {r id : ℕ} {ph : ReportPhase} {e : OriginEntry} (h : (s.reports r).phase = .counting id)
      (hph : ph = .timing id ∨ ph = .touching id) (hslots : e.slots = (s.heap id).slots)
      (hcapacity : e.capacity = (s.heap id).capacity)
      (hbackoff : e.backoffUntil = (s.heap id).backoffUntil) :
      OriginStep s (.reportNext r) ((s.setEntry id e).setReport r ph)
  | time {r id : ℕ} (h : (s.reports r).phase = .timing id) :
      OriginStep s (.reportNext r)
        (s.setReport r (.loading id (throttleDeadline s.clock (s.reports r).report)))
  | loadDeadline {r id deadline : ℕ} (h : (s.reports r).phase = .loading id deadline) :
      OriginStep s (.reportNext r)
        (s.setReport r (.exchanging id deadline (s.heap id).backoffUntil))
  | finish {r id deadline current : ℕ} (h : (s.reports r).phase = .exchanging id deadline current)
      (hle : deadline ≤ current) : OriginStep s (.reportNext r) (s.finishReport r deadline)
  | extend {r id deadline current : ℕ} (h : (s.reports r).phase = .exchanging id deadline current)
      (hlt : current < deadline) (hsame : (s.heap id).backoffUntil = current) :
      OriginStep s (.reportNext r)
        ((s.setEntry id { s.heap id with backoffUntil := deadline }).finishReport r deadline)
  | retry {r id deadline current : ℕ} (h : (s.reports r).phase = .exchanging id deadline current) :
      OriginStep s (.reportNext r)
        (s.setReport r (.exchanging id deadline (s.heap id).backoffUntil))
  | touchReport {r id : ℕ} (h : (s.reports r).phase = .touching id) :
      OriginStep s (.reportNext r) ((s.touch id).setReport r .finished)
  | evictIdle : OriginStep s .evictIdle { s with entries := s.evictIdleEntries s.entries }

/-- **A lookup finds the entry, or creates it** behind the evictions. -/
theorem entry_cases {key : String} {victims : List String} {x : OriginRegistry × ℕ}
    (h : s.entry key victims = some x) :
    (∃ id, s.entries.lookup key = some id ∧ victims = [] ∧ x = (s.touch id, id)) ∨
      ∃ map, s.entries.lookup key = none ∧ s.evicted victims = some map ∧
        x = (s.create key map, s.created) := by
  rw [entry] at h
  split at h
  · next id hl =>
    split_ifs at h with hv
    exact .inl ⟨id, hl, hv, (Option.some.inj h).symm⟩
  · next hl =>
    obtain ⟨map, hm, rfl⟩ := Option.map_eq_some_iff.mp h
    exact .inr ⟨map, hl, hm, rfl⟩

/-- The steps of an admission. -/
theorem originStep_of_admitStep {c : ℕ} (h : s.admitStep c (s.admits c).phase = some s') :
    OriginStep s (.admitNext c) s' := by
  rcases hph : (s.admits c).phase <;> rw [hph] at h <;> simp only [admitStep] at h
  case loading id =>
    split_ifs at h with hd <;> cases h
    · exact .skip hph hd
    · exact .load hph
  case comparing id deadline =>
    split_ifs at h with hlt <;> cases h
    · exact .sleep hph
    · exact .pass hph (by omega)
  case acquiring id =>
    split_ifs at h with hpos <;> cases h
    · exact .acquire hph hpos
    · exact .enqueue hph
  case granted id =>
    cases h
    exact .give hph
  all_goals cases h

/-- The steps of a report. -/
theorem originStep_of_reportStep {r : ℕ} (h : s.reportStep r (s.reports r).phase = some s') :
    OriginStep s (.reportNext r) s' := by
  rcases hph : (s.reports r).phase <;> rw [hph] at h <;> simp only [reportStep] at h
  case counting id =>
    split at h <;> cases h
    · exact .count hph (.inl rfl) rfl rfl rfl
    · exact .count hph (.inr rfl) rfl rfl rfl
  case timing id =>
    cases h
    exact .time hph
  case loading id deadline =>
    cases h
    exact .loadDeadline hph
  case exchanging id deadline current =>
    split_ifs at h with hle hsame <;> cases h
    · exact .finish hph hle
    · exact .extend hph (Nat.lt_of_not_le hle) hsame
    · exact .retry hph
  case touching id =>
    cases h
    exact .touchReport hph
  all_goals cases h

/-- Each step is one of the relation over which the invariants are proved. -/
theorem originStep_of_step {e : OriginEvent} (h : s.step e = some s') : OriginStep s e s' := by
  cases e <;> simp only [step] at h
  case tick now =>
    cases h
    exact .tick now
  case admitCall key =>
    cases h
    exact .admitCall key
  case admitLookup c victims =>
    split_ifs at h with hph
    obtain ⟨x, hx, rfl⟩ := Option.map_eq_some_iff.mp h
    obtain ⟨id, hl, rfl, rfl⟩ | ⟨map, hl, hm, rfl⟩ := entry_cases hx
    · exact .found hph hl
    · exact .made hph hl hm
  case admitNext c => exact originStep_of_admitStep h
  case wake c =>
    split at h
    · next id hph =>
      cases h
      exact .wake hph
    · cases h
  case cancel c =>
    rcases hph : (s.admits c).phase <;> rw [hph] at h <;> simp only [cancelStep] at h <;> cases h
    · exact .cancelEarly (.inl hph)
    · exact .cancelEarly (.inr hph)
    · exact .cancelQueued hph
    · exact .release (.inl rfl) (.inl hph)
  case dropPermit c =>
    split at h
    · next id hph =>
      cases h
      exact .release (.inr rfl) (.inr hph)
    · next id hph =>
      cases h
      exact .dropUnslotted hph
    · cases h
  case report key report =>
    cases h
    refine .report key report _ ?_
    split_ifs
    · exact .inl rfl
    · exact .inr rfl
  case reportLookup r victims =>
    split_ifs at h with hph
    obtain ⟨x, hx, rfl⟩ := Option.map_eq_some_iff.mp h
    obtain ⟨id, hl, rfl, rfl⟩ | ⟨map, hl, hm, rfl⟩ := entry_cases hx
    · exact .reportFound hph hl
    · exact .reportMade hph hl hm
  case reportNext r => exact originStep_of_reportStep h
  case evictIdle =>
    cases h
    exact .evictIdle

end OriginRegistry

end KDown
