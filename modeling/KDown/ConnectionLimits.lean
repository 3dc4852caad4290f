/-
KDown/ConnectionLimits.lean

The connection limits of the connector (http/connect.rs): one global semaphore
and one semaphore for each origin.

`acquire` takes the global permit first and then waits for the origin's, as
long as it takes.  A caller for a saturated origin keeps the global permit
meanwhile: two callers for one origin are enough to block everybody else
(`saturated_origin_blocks`).  While a caller gets its global permit only when
its origin has a permit left for it, no origin holds more global permits than
its limit, and nobody is blocked while there is room for a connection
(`permits_proportionate`).
-/
import KDown.FairSemaphore
import KDown.Runs
import KDown.Tally

namespace KDown

/-- Where an acquisition stands. -/
inductive AcquirePhase
  | unused
  | waitGlobal
  /-- Has the global permit, about to look its origin up. -/
  | lookingUp
  | waitOrigin
  /-- Has both permits: a connection. -/
  | connected
  /-- The global permit is released, the origin's is not yet. -/
  | releasing
  | ended
  deriving DecidableEq, Repr

namespace AcquirePhase

/-- The call has a permit of the global semaphore. -/
def holdsGlobal : AcquirePhase → Bool
  | lookingUp => true
  | waitOrigin => true
  | connected => true
  | _ => false

/-- The call has a permit of its origin. -/
def holdsOrigin : AcquirePhase → Bool
  | connected => true
  | releasing => true
  | _ => false

/-- Has the global permit and not the origin's. -/
def isOnTheWay : AcquirePhase → Bool
  | lookingUp => true
  | waitOrigin => true
  | _ => false

end AcquirePhase

/-- A call of `acquire`. -/
structure AcquireCall where
  originKey : String
  phase : AcquirePhase
  deriving DecidableEq, Repr

/-- The global semaphore, those of the origins, and the calls. -/
structure ConnectionLimits where
  maxTotal : ℕ
  perOrigin : ℕ
  global : FairSemaphore ℕ
  origins : String → Option (FairSemaphore ℕ)
  calls : ℕ → AcquireCall
  /-- Calls so far. -/
  count : ℕ

/-- A call begins, goes on, is dropped, or closes its connection. -/
inductive LimitEvent
  | acquire (originKey : String)
  /-- The global semaphore serves the call. -/
  | grantGlobal (i : ℕ)
  | lookup (i : ℕ)
  | grantOrigin (i : ℕ)
  /-- The future of the call is dropped. -/
  | cancel (i : ℕ)
  /-- The connection closes: the global permit goes first. -/
  | close (i : ℕ)
  | closeOrigin (i : ℕ)
  deriving DecidableEq, Repr

namespace ConnectionLimits

variable {s s' : ConnectionLimits}

/-- Nothing is acquired. -/
def new (maxTotal maxPerOrigin : ℕ) : ConnectionLimits where
  maxTotal := max maxTotal 1
  perOrigin := max maxPerOrigin 1
  global := .new (max maxTotal 1)
  origins := fun _ => none
  calls := fun _ => ⟨"", .unused⟩
  count := 0

/-- The call moves on. -/
def setPhase (s : ConnectionLimits) (i : ℕ) (ph : AcquirePhase) : ConnectionLimits :=
  { s with calls := Function.update s.calls i { s.calls i with phase := ph } }

/-- The semaphore of the origin is replaced. -/
def setOrigin (s : ConnectionLimits) (key : String) (sem : FairSemaphore ℕ) : ConnectionLimits :=
  { s with origins := Function.update s.origins key (some sem) }

/-- The origin's semaphore; a new one has all its permits. -/
def originSem (s : ConnectionLimits) (key : String) : FairSemaphore ℕ :=
  (s.origins key).getD (.new s.perOrigin)

/-- The origin of a call. -/
def key (s : ConnectionLimits) (i : ℕ) : String := (s.calls i).originKey

/-- A call of `acquire` enters the global queue. -/
def enter (s : ConnectionLimits) (originKey : String) : ConnectionLimits :=
  { s with
    global := s.global.enqueue s.count
    calls := Function.update s.calls s.count ⟨originKey, .waitGlobal⟩
    count := s.count + 1 }

/-- One event. -/
def step (s : ConnectionLimits) : LimitEvent → Option ConnectionLimits
  | .acquire originKey => some (s.enter originKey)
  | .grantGlobal i =>
      if (s.calls i).phase = .waitGlobal then
        (s.global.grant i).map fun global => { s.setPhase i .lookingUp with global := global }
      else none
  | .lookup i =>
      if (s.calls i).phase = .lookingUp then
        some ((s.setOrigin (s.key i) ((s.originSem (s.key i)).enqueue i)).setPhase i .waitOrigin)
      else none
  | .grantOrigin i =>
      if (s.calls i).phase = .waitOrigin then
        ((s.originSem (s.key i)).grant i).map fun sem =>
          (s.setOrigin (s.key i) sem).setPhase i .connected
      else none
  | .cancel i =>
      match (s.calls i).phase with
      | .waitGlobal => some { s.setPhase i .ended with global := s.global.leave i }
      | .lookingUp => some { s.setPhase i .ended with global := s.global.release }
      | .waitOrigin =>
          some { (s.setOrigin (s.key i) ((s.originSem (s.key i)).leave i)).setPhase i .ended with
            global := s.global.release }
      | _ => none
  | .close i =>
      if (s.calls i).phase = .connected then
        some { s.setPhase i .releasing with global := s.global.release }
      else none
  | .closeOrigin i =>
      if (s.calls i).phase = .releasing then
        some ((s.setOrigin (s.key i) (s.originSem (s.key i)).release).setPhase i .ended)
      else none

/-! ### Who holds what -/

/-- Calls of the origin in the phases `p`. -/
def countOf (s : ConnectionLimits) (p : AcquirePhase → Bool) (key : String) : ℕ :=
  tally s.count (fun c : AcquireCall => if c.originKey = key ∧ p c.phase then 1 else 0) s.calls

/-- Calls in the phases `p`. -/
def total (s : ConnectionLimits) (p : AcquirePhase → Bool) : ℕ :=
  tally s.count (fun c : AcquireCall => if p c.phase then 1 else 0) s.calls

/-- Global permits held on behalf of the origin. -/
def globalHeld (s : ConnectionLimits) (key : String) : ℕ := s.countOf AcquirePhase.holdsGlobal key

/-- The permits of the origin that are out. -/
def originHeld (s : ConnectionLimits) (key : String) : ℕ := s.countOf AcquirePhase.holdsOrigin key

/-- The calls that have the global permit and want that of the origin. -/
def onTheWay (s : ConnectionLimits) (key : String) : ℕ := s.countOf AcquirePhase.isOnTheWay key

/-- Connections that exist. -/
def connections (s : ConnectionLimits) : ℕ := s.total fun ph => ph = .connected

/-- A call gets its global permit only when the origin has a permit left,
beyond those that calls on their way to it will take. -/
def Proportionate (s : ConnectionLimits) : LimitEvent → Prop
  | .grantGlobal i => s.onTheWay (s.key i) < (s.originSem (s.key i)).available
  | _ => True

instance (s : ConnectionLimits) : ∀ e, Decidable (s.Proportionate e)
  | .grantGlobal i =>
      inferInstanceAs (Decidable (s.onTheWay (s.key i) < (s.originSem (s.key i)).available))
  | .acquire _ => .isTrue trivial
  | .lookup _ => .isTrue trivial
  | .grantOrigin _ => .isTrue trivial
  | .cancel _ => .isTrue trivial
  | .close _ => .isTrue trivial
  | .closeOrigin _ => .isTrue trivial

/-- The call waits for its global permit, and no call can go on until some
connection closes. -/
def Blocked (s : ConnectionLimits) (i : ℕ) : Prop :=
  (s.calls i).phase = .waitGlobal ∧ ∀ k < s.count, (s.step (.grantGlobal k)).isNone ∧
    (s.step (.lookup k)).isNone ∧ (s.step (.grantOrigin k)).isNone

instance (s : ConnectionLimits) (i : ℕ) : Decidable (s.Blocked i) :=
  inferInstanceAs (Decidable (_ ∧ ∀ k < s.count, _ ∧ _ ∧ _))

/-! ### The books balance -/

/-- What every interleaving keeps. -/
structure LimitInv (s : ConnectionLimits) : Prop where
  unused : ∀ i, s.count ≤ i → (s.calls i).phase = .unused
  global : s.global.available + s.total AcquirePhase.holdsGlobal = s.maxTotal
  origin : ∀ key, (s.originSem key).available + s.originHeld key = s.perOrigin
  /-- A call on its way to its origin finds a permit there. -/
  room : ∀ key, s.onTheWay key ≤ (s.originSem key).available
  waiting : s.global.Waiting fun i => (s.calls i).phase = .waitGlobal
  originWaiting : ∀ key, (s.originSem key).Waiting fun i =>
    s.key i = key ∧ (s.calls i).phase = .waitOrigin

theorem LimitInv.new (n m : ℕ) : LimitInv (new n m) where
  unused := fun _ _ => rfl
  global := rfl
  origin := fun _ => rfl
  room := fun _ => Nat.zero_le _
  waiting := ⟨List.nodup_nil, fun _ => ⟨fun h => (List.not_mem_nil h).elim, fun h => by cases h⟩⟩
  originWaiting := fun _ =>
    ⟨List.nodup_nil, fun _ => ⟨fun h => (List.not_mem_nil h).elim, fun h => by cases h.2⟩⟩

theorem LimitInv.lt_count (hi : LimitInv s) {i : ℕ} {ph : AcquirePhase} (h : (s.calls i).phase = ph)
    (hne : ph ≠ .unused) : i < s.count := by
  by_contra hge
  exact hne (h.symm.trans (hi.unused i (not_lt.mp hge)))

/-- What a call adds to a count. -/
def weight (p : AcquirePhase → Bool) (ph : AcquirePhase) : ℕ := if p ph then 1 else 0

/-- One call moves on: a count changes for its own origin only. -/
theorem countOf_move {i : ℕ} (hlt : i < s.count) {ph : AcquirePhase}
    (hcalls : s'.calls = Function.update s.calls i { s.calls i with phase := ph })
    (hcount : s'.count = s.count) (p : AcquirePhase → Bool) (key : String) :
    (key = s.key i → s'.countOf p key + weight p (s.calls i).phase = s.countOf p key + weight p ph) ∧
      (key ≠ s.key i → s'.countOf p key = s.countOf p key) := by
  have htally := tally_update hlt
    (fun c : AcquireCall => if c.originKey = key ∧ p c.phase then 1 else 0) s.calls
    { s.calls i with phase := ph }
  rw [← hcalls] at htally
  refine ⟨fun hkey => ?_, fun hkey => ?_⟩
  · have hown : (s.calls i).originKey = key := hkey.symm
    simp only [hown, true_and] at htally
    rw [countOf, hcount]
    exact htally
  · have hother : (s.calls i).originKey ≠ key := Ne.symm hkey
    simp only [hother, false_and, if_false, Nat.add_zero] at htally
    rw [countOf, hcount]
    exact htally

theorem total_move {i : ℕ} (hlt : i < s.count) {ph : AcquirePhase}
    (hcalls : s'.calls = Function.update s.calls i { s.calls i with phase := ph })
    (hcount : s'.count = s.count) (p : AcquirePhase → Bool) :
    s'.total p + weight p (s.calls i).phase = s.total p + weight p ph := by
  rw [total, hcalls, hcount]
  exact tally_update hlt (fun c : AcquireCall => if p c.phase then 1 else 0) s.calls
    { s.calls i with phase := ph }

/-- Call `i` moves on to `ph`; of the origins' semaphores its own one becomes
`sem`. -/
theorem LimitInv.move (hi : LimitInv s) {i : ℕ} {old : AcquirePhase} (ph : AcquirePhase)
    {sem : FairSemaphore ℕ}
    (hold : (s.calls i).phase = old) (hne : old ≠ .unused)
    (hcalls : s'.calls = Function.update s.calls i { s.calls i with phase := ph })
    (hcount : s'.count = s.count) (hlimits : s'.maxTotal = s.maxTotal ∧ s'.perOrigin = s.perOrigin)
    (horigins : ∀ key, s'.originSem key = if key = s.key i then sem else s.originSem key)
    (hglobal : s'.global.available + weight AcquirePhase.holdsGlobal ph
      = s.global.available + weight AcquirePhase.holdsGlobal old)
    (horigin : sem.available + weight AcquirePhase.holdsOrigin ph
      = (s.originSem (s.key i)).available + weight AcquirePhase.holdsOrigin old)
    (hroom : s.onTheWay (s.key i) + weight AcquirePhase.isOnTheWay ph
      ≤ sem.available + weight AcquirePhase.isOnTheWay old)
    (hwaiting : s'.global.Waiting fun k => (s'.calls k).phase = .waitGlobal)
    (hsem : sem.Waiting fun k => s'.key k = s.key i ∧ (s'.calls k).phase = .waitOrigin) :
    LimitInv s' := by
  have hlt := hi.lt_count hold hne
  have hself : (s'.calls i).phase = ph := by rw [hcalls, Function.update_self]
  have hother : ∀ k, k ≠ i → s'.calls k = s.calls k := fun k hk => by
    rw [hcalls, Function.update_of_ne hk]
  have hkey : ∀ k, s'.key k = s.key k := by
    intro k
    by_cases hk : k = i
    · subst hk
      rw [key, hcalls, Function.update_self]
      rfl
    · rw [key, hother k hk]
      rfl
  refine ⟨fun k hk => ?_, ?_, fun key => ?_, fun key => ?_, hwaiting, fun key => ?_⟩
  · rw [hcount] at hk
    rw [hother k (Nat.ne_of_gt (hlt.trans_le hk))]
    exact hi.unused k hk
  · have htotal := total_move hlt hcalls hcount AcquirePhase.holdsGlobal
    have hbefore := hi.global
    rw [hold] at htotal
    rw [hlimits.1]
    omega
  · obtain ⟨hown, helse⟩ := countOf_move hlt hcalls hcount AcquirePhase.holdsOrigin key
    have hbefore := hi.origin key
    rw [horigins, hlimits.2]
    rw [originHeld] at hbefore ⊢
    split_ifs with hk
    · have hsame := hown hk
      rw [hold] at hsame
      rw [hk] at hsame hbefore ⊢
      omega
    · rw [helse hk]
      exact hbefore
  · obtain ⟨hown, helse⟩ := countOf_move hlt hcalls hcount AcquirePhase.isOnTheWay key
    have hbefore := hi.room key
    rw [horigins]
    rw [onTheWay] at hbefore ⊢
    split_ifs with hk
    · have hsame := hown hk
      rw [hold] at hsame
      rw [onTheWay] at hroom
      rw [hk] at hsame ⊢
      omega
    · rw [helse hk]
      exact hbefore
  · rw [horigins]
    split_ifs with hk
    · rw [hk]
      exact hsem
    · refine (hi.originWaiting key).congr rfl fun k => ?_
      rw [hkey]
      by_cases hki : k = i
      · subst hki
        exact ⟨fun h => absurd h.1.symm hk, fun h => absurd h.1.symm hk⟩
      · rw [hother k hki]

theorem originSem_setOrigin (key key' : String) (sem : FairSemaphore ℕ) :
    (s.setOrigin key sem).originSem key' = if key' = key then sem else s.originSem key' := by
  show (Function.update s.origins key (some sem) key').getD _ = _
  by_cases hk : key' = key
  · subst hk
    rw [Function.update_self, if_pos rfl]
    rfl
  · rw [Function.update_of_ne hk, if_neg hk]
    rfl

theorem phase_self (i : ℕ) (ph : AcquirePhase) : ((s.setPhase i ph).calls i).phase = ph :=
  congrArg AcquireCall.phase (Function.update_self i _ s.calls)

theorem phase_of_ne {i k : ℕ} (hk : k ≠ i) (ph : AcquirePhase) :
    (s.setPhase i ph).calls k = s.calls k := Function.update_of_ne hk _ s.calls

theorem key_setPhase (i : ℕ) (ph : AcquirePhase) (k : ℕ) : (s.setPhase i ph).key k = s.key k := by
  show (Function.update s.calls i _ k).originKey = (s.calls k).originKey
  by_cases hk : k = i
  · subst hk
    rw [Function.update_self]
  · rw [Function.update_of_ne hk]

/-- The call is not in the global queue, before or after. -/
theorem LimitInv.global_congr (hi : LimitInv s) {i : ℕ} {old ph : AcquirePhase}
    (hold : (s.calls i).phase = old) (hne : old ≠ .waitGlobal) (hne' : ph ≠ .waitGlobal)
    {sem : FairSemaphore ℕ} (hq : sem.queue = s.global.queue) :
    sem.Waiting fun k => ((s.setPhase i ph).calls k).phase = .waitGlobal := by
  refine hi.waiting.congr hq fun k => ?_
  by_cases hk : k = i
  · subst hk
    rw [phase_self, hold]
    exact ⟨fun h => absurd h hne', fun h => absurd h hne⟩
  · rw [phase_of_ne hk]

/-- The call is not in its origin's queue, before or after. -/
theorem LimitInv.origin_congr (hi : LimitInv s) {i : ℕ} {old ph : AcquirePhase}
    (hold : (s.calls i).phase = old) (hne : old ≠ .waitOrigin) (hne' : ph ≠ .waitOrigin)
    {sem : FairSemaphore ℕ} (hq : sem.queue = (s.originSem (s.key i)).queue) :
    sem.Waiting fun k => (s.setPhase i ph).key k = s.key i ∧
      ((s.setPhase i ph).calls k).phase = .waitOrigin := by
  refine (hi.originWaiting (s.key i)).congr hq fun k => ?_
  rw [key_setPhase]
  by_cases hk : k = i
  · subst hk
    rw [phase_self, hold]
    exact ⟨fun h => absurd h.2 hne', fun h => absurd h.2 hne⟩
  · rw [phase_of_ne hk]

/-- The semaphores of the origins stay. -/
theorem originSem_same (i : ℕ) (key : String) :
    s.originSem key = if key = s.key i then s.originSem (s.key i) else s.originSem key := by
  split_ifs with hk
  · rw [hk]
  · rfl

theorem calls_enter_self (originKey : String) :
    (s.enter originKey).calls s.count = ⟨originKey, .waitGlobal⟩ := Function.update_self ..

theorem calls_enter_of_ne {k : ℕ} (hk : k ≠ s.count) (originKey : String) :
    (s.enter originKey).calls k = s.calls k := Function.update_of_ne hk ..

/-- Waiting for the global permit counts for nothing. -/
theorem countOf_enter {p : AcquirePhase → Bool} (hp : p .waitGlobal = false) (originKey key : String) :
    (s.enter originKey).countOf p key = s.countOf p key := by
  have htally := tally_succ s.count
    (fun c : AcquireCall => if c.originKey = key ∧ p c.phase then 1 else 0) s.calls
    ⟨originKey, .waitGlobal⟩
  simp only [hp, Bool.false_eq_true, and_false, if_false, Nat.add_zero] at htally
  exact htally

theorem total_enter {p : AcquirePhase → Bool} (hp : p .waitGlobal = false) (originKey : String) :
    (s.enter originKey).total p = s.total p := by
  have htally := tally_succ s.count (fun c : AcquireCall => if p c.phase then 1 else 0) s.calls
    ⟨originKey, .waitGlobal⟩
  simp only [hp, Bool.false_eq_true, if_false, Nat.add_zero] at htally
  exact htally

/-- A call that enters asks for nothing yet. -/
theorem LimitInv.enter (hi : LimitInv s) (originKey : String) : LimitInv (s.enter originKey) := by
  have hnone : (s.calls s.count).phase = .unused := hi.unused s.count le_rfl
  refine ⟨fun k hk => ?_, ?_, fun key => ?_, fun key => ?_, ?_, fun key => ?_⟩
  · rw [calls_enter_of_ne (Nat.ne_of_gt hk)]
    exact hi.unused k (Nat.le_of_succ_le hk)
  · rw [total_enter rfl]
    exact hi.global
  · rw [originHeld, countOf_enter rfl]
    exact hi.origin key
  · rw [onTheWay, countOf_enter rfl]
    exact hi.room key
  · refine hi.waiting.enqueue ?_ ?_ fun k hk => ?_
    · rw [hnone]
      intro hno
      cases hno
    · rw [calls_enter_self]
    · rw [calls_enter_of_ne hk]
  · refine (hi.originWaiting key).congr rfl fun k => ?_
    rw [ConnectionLimits.key]
    by_cases hk : k = s.count
    · subst hk
      rw [calls_enter_self, hnone]
      constructor
      · intro hno
        cases hno.2
      · intro hno
        cases hno.2
    · rw [calls_enter_of_ne hk]
      rfl

/-- **The invariant is kept** when the global permits are handed out in
proportion. -/
theorem LimitInv.step (hi : LimitInv s) {e : LimitEvent} (hok : s.Proportionate e)
    (h : s.step e = some s') : LimitInv s' := by
  rcases e with originKey | i | i | i | i | i | i <;> simp only [ConnectionLimits.step] at h
  · cases h
    exact hi.enter originKey
  · split_ifs at h with hph
    obtain ⟨sem, hsem, rfl⟩ := Option.map_eq_some_iff.mp h
    obtain ⟨rest, -, hpos, rfl⟩ := FairSemaphore.grant_eq_some hsem
    refine hi.move .lookingUp hph (fun hno => by cases hno) rfl rfl ⟨rfl, rfl⟩
      (originSem_same (s := s) i) ?_ rfl ?_ ?_ ?_
    · show s.global.available - 1 + 1 = s.global.available + 0
      omega
    · exact hok
    · refine hi.waiting.grant hsem ?_ fun k hk => ?_
      · show ¬ ((s.setPhase i .lookingUp).calls i).phase = .waitGlobal
        rw [phase_self]
        intro hno
        cases hno
      · show ((s.setPhase i .lookingUp).calls k).phase = _ ↔ _
        rw [phase_of_ne hk]
    · exact hi.origin_congr hph (fun hno => by cases hno) (fun hno => by cases hno) rfl
  · split_ifs at h with hph
    cases h
    refine hi.move .waitOrigin hph (fun hno => by cases hno) rfl rfl ⟨rfl, rfl⟩
      (fun key => originSem_setOrigin _ key _) rfl rfl ?_ ?_ ?_
    · exact Nat.add_le_add_right (hi.room (s.key i)) 1
    · exact hi.global_congr hph (fun hno => by cases hno) (fun hno => by cases hno) rfl
    · refine (hi.originWaiting (s.key i)).enqueue ?_ ?_ fun k hk => ?_
      · rw [hph]
        exact fun hno => by cases hno.2
      · exact ⟨key_setPhase i _ i, phase_self i _⟩
      · show (s.setPhase i .waitOrigin).key k = _ ∧ ((s.setPhase i .waitOrigin).calls k).phase = _ ↔ _
        rw [key_setPhase, phase_of_ne hk]
  · split_ifs at h with hph
    obtain ⟨sem, hsem, rfl⟩ := Option.map_eq_some_iff.mp h
    obtain ⟨rest, -, hpos, hsem'⟩ := FairSemaphore.grant_eq_some hsem
    have havail : sem.available = (s.originSem (s.key i)).available - 1 := by rw [hsem']
    refine hi.move .connected hph (fun hno => by cases hno) rfl rfl ⟨rfl, rfl⟩
      (fun key => originSem_setOrigin _ key _) rfl ?_ ?_ ?_ ?_
    · show sem.available + 1 = (s.originSem (s.key i)).available + 0
      omega
    · have hroom := hi.room (s.key i)
      show s.onTheWay (s.key i) + 0 ≤ sem.available + 1
      omega
    · exact hi.global_congr hph (fun hno => by cases hno) (fun hno => by cases hno) rfl
    · refine (hi.originWaiting (s.key i)).grant hsem ?_ fun k hk => ?_
      · intro hno
        have hnever := hno.2.symm.trans (phase_self i .connected)
        cases hnever
      · show (s.setPhase i .connected).key k = _ ∧ ((s.setPhase i .connected).calls k).phase = _ ↔ _
        rw [key_setPhase, phase_of_ne hk]
  · rcases hph : (s.calls i).phase <;> rw [hph] at h <;> cases h
    · refine hi.move .ended hph (fun hno => by cases hno) rfl rfl ⟨rfl, rfl⟩
        (originSem_same (s := s) i) rfl rfl (hi.room (s.key i)) ?_ ?_
      · refine hi.waiting.leave ?_ fun k hk => ?_
        · show ¬ ((s.setPhase i .ended).calls i).phase = .waitGlobal
          rw [phase_self]
          intro hno
          cases hno
        · show ((s.setPhase i .ended).calls k).phase = _ ↔ _
          rw [phase_of_ne hk]
      · exact hi.origin_congr hph (fun hno => by cases hno) (fun hno => by cases hno) rfl
    · refine hi.move .ended hph (fun hno => by cases hno) rfl rfl ⟨rfl, rfl⟩
        (originSem_same (s := s) i) rfl rfl ?_ ?_ ?_
      · exact (hi.room (s.key i)).trans (Nat.le_add_right _ _)
      · exact hi.global_congr hph (fun hno => by cases hno) (fun hno => by cases hno) rfl
      · exact hi.origin_congr hph (fun hno => by cases hno) (fun hno => by cases hno) rfl
    · refine hi.move .ended hph (fun hno => by cases hno) rfl rfl ⟨rfl, rfl⟩
        (fun key => originSem_setOrigin _ key _) rfl rfl ?_ ?_ ?_
      · exact (hi.room (s.key i)).trans (Nat.le_add_right _ _)
      · exact hi.global_congr hph (fun hno => by cases hno) (fun hno => by cases hno) rfl
      · refine (hi.originWaiting (s.key i)).leave ?_ fun k hk => ?_
        · intro hno
          have hnever := hno.2.symm.trans (phase_self i .ended)
          cases hnever
        · show (s.setPhase i .ended).key k = _ ∧ ((s.setPhase i .ended).calls k).phase = _ ↔ _
          rw [key_setPhase, phase_of_ne hk]
  · split_ifs at h with hph
    cases h
    refine hi.move .releasing hph (fun hno => by cases hno) rfl rfl ⟨rfl, rfl⟩
      (originSem_same (s := s) i) rfl rfl (hi.room (s.key i)) ?_ ?_
    · exact hi.global_congr hph (fun hno => by cases hno) (fun hno => by cases hno) rfl
    · exact hi.origin_congr hph (fun hno => by cases hno) (fun hno => by cases hno) rfl
  · split_ifs at h with hph
    cases h
    refine hi.move .ended hph (fun hno => by cases hno) rfl rfl ⟨rfl, rfl⟩
      (fun key => originSem_setOrigin _ key _) rfl rfl ?_ ?_ ?_
    · exact (hi.room (s.key i)).trans (Nat.le_succ _)
    · exact hi.global_congr hph (fun hno => by cases hno) (fun hno => by cases hno) rfl
    · exact hi.origin_congr hph (fun hno => by cases hno) (fun hno => by cases hno) rfl

/-! ### What follows for the connector -/

/-- A call with a global permit is on its way or has its origin's permit. -/
theorem LimitInv.globalHeld_le (hi : LimitInv s) (key : String) : s.globalHeld key ≤ s.perOrigin := by
  have hsplit : s.globalHeld key ≤ s.onTheWay key + s.originHeld key := by
    rw [globalHeld, onTheWay, originHeld, countOf, countOf, countOf]
    refine tally_le_add s.calls fun c => ?_
    rcases c with ⟨k, ph⟩
    by_cases hk : k = key
    · cases ph <;> simp [hk, AcquirePhase.holdsGlobal, AcquirePhase.isOnTheWay,
        AcquirePhase.holdsOrigin]
    · simp [hk]
  have hroom := hi.room key
  have horigin := hi.origin key
  omega

/-- Somebody is on the way when more global permits are out than there are
connections. -/
theorem exists_isOnTheWay (h : s.connections < s.total AcquirePhase.holdsGlobal) :
    ∃ k < s.count, (s.calls k).phase.isOnTheWay = true := by
  have hsplit : s.total AcquirePhase.holdsGlobal
      ≤ s.connections + s.total AcquirePhase.isOnTheWay := by
    rw [connections, total, total, total]
    refine tally_le_add s.calls fun c => ?_
    rcases c with ⟨k, ph⟩
    cases ph <;> simp [AcquirePhase.holdsGlobal, AcquirePhase.isOnTheWay]
  obtain ⟨k, hk, hpos⟩ := exists_of_tally_pos (show 0 < s.total AcquirePhase.isOnTheWay by omega)
  refine ⟨k, hk, ?_⟩
  by_contra hno
  rw [if_neg hno] at hpos
  exact absurd hpos (lt_irrefl 0)

/-- Nobody is blocked while there is room for a connection. -/
theorem LimitInv.not_blocked (hi : LimitInv s) (hroom : s.connections < s.maxTotal) (i : ℕ) :
    ¬ s.Blocked i := by
  rintro ⟨hwait, hstuck⟩
  have hqueue : s.global.queue ≠ [] := List.ne_nil_of_mem ((hi.waiting.mem i).mpr hwait)
  by_cases havail : 0 < s.global.available
  · -- the first waiter can be served
    obtain ⟨j, rest, hq, hgrant⟩ := FairSemaphore.exists_grant havail hqueue
    have hph : (s.calls j).phase = .waitGlobal :=
      (hi.waiting.mem j).mp (by rw [hq]; exact List.mem_cons_self)
    have hnone := (hstuck j (hi.lt_count hph (fun hno => by cases hno))).1
    rw [ConnectionLimits.step, if_pos hph, hgrant] at hnone
    cases hnone
  · -- all permits are out, so somebody is on the way to an origin
    have htotal := hi.global
    obtain ⟨k, hk, hway⟩ := exists_isOnTheWay (s := s) (by omega)
    rcases hph : (s.calls k).phase <;> rw [hph] at hway <;> cases hway
    · have hnone := (hstuck k hk).2.1
      rw [ConnectionLimits.step, if_pos hph] at hnone
      cases hnone
    · have hin : k ∈ (s.originSem (s.key k)).queue :=
        ((hi.originWaiting (s.key k)).mem k).mpr ⟨rfl, hph⟩
      have hpos : 0 < s.onTheWay (s.key k) := by
        have hle := le_tally hk (fun c : AcquireCall =>
          if c.originKey = s.key k ∧ c.phase.isOnTheWay then 1 else 0) s.calls
        rw [if_pos ⟨rfl, by rw [hph]; rfl⟩] at hle
        exact hle
      obtain ⟨j, rest, hq, hgrant⟩ := FairSemaphore.exists_grant
        (hpos.trans_le (hi.room (s.key k))) (List.ne_nil_of_mem hin)
      obtain ⟨hkey, hphase⟩ := ((hi.originWaiting (s.key k)).mem j).mp
        (by rw [hq]; exact List.mem_cons_self)
      have hnone := (hstuck j (hi.lt_count hphase (fun hno => by cases hno))).2.2
      rw [ConnectionLimits.step, if_pos hphase, hkey, hgrant] at hnone
      cases hnone

/-- **Permits stay proportionate.**  While a call gets its global permit only
when its origin has a permit left for it, no origin holds more global permits
than its limit, and no call is blocked while there is room for a connection. -/
theorem permits_proportionate {n m : ℕ} (h : Reach step Proportionate (· = new n m) s) :
    (∀ key, s.globalHeld key ≤ s.perOrigin) ∧
      (s.connections < s.maxTotal → ∀ i, ¬ s.Blocked i) := by
  have hi : LimitInv s :=
    h.invariant (fun _ hnew => hnew ▸ .new n m) fun _ _ _ hi hok hs => hi.step hok hs
  exact ⟨hi.globalHeld_le, hi.not_blocked⟩

/-- A connection to one origin, and a call for another one that has its global
permit. -/
def modestRun : List LimitEvent :=
  [.acquire "a", .grantGlobal 0, .lookup 0, .grantOrigin 0, .acquire "b", .grantGlobal 1]

/-- Neither origin has more than its share of the permits. -/
theorem permits_proportionate_modestRun :
    ∃ s, runEvents step (new 2 1) modestRun = some s ∧ s.connections = 1 ∧ s.globalHeld "b" = 1 ∧
      ∀ key, s.globalHeld key ≤ 1 := by
  have hok : runOk step Proportionate (new 2 1) modestRun := by decide +kernel
  have hrun : ∃ s ∈ runEvents step (new 2 1) modestRun, s.connections = 1 ∧
      s.globalHeld "b" = 1 ∧ s.perOrigin = 1 := by decide +kernel
  obtain ⟨s, hs, hconn, hheld, hper⟩ := hrun
  refine ⟨s, hs, hconn, hheld, fun key => ?_⟩
  rw [← hper]
  exact (permits_proportionate (.of_run (.start rfl) hok hs)).1 key

/-- Two calls for one origin take both global permits; a call for another
origin comes. -/
def crowdedRun : List LimitEvent :=
  [.acquire "a", .grantGlobal 0, .lookup 0, .grantOrigin 0, .acquire "a", .grantGlobal 1, .lookup 1,
    .acquire "b"]

/-- **An origin at its limit blocks another one**: its waiters hold the global
permits. -/
theorem saturated_origin_blocks :
    ∃ s, runEvents step (new 2 1) crowdedRun = some s ∧ s.perOrigin = 1 ∧ s.globalHeld "a" = 2 ∧
      s.originHeld "b" = 0 ∧ s.connections < s.maxTotal ∧ s.Blocked 2 := by
  have hrun : ∃ s ∈ runEvents step (new 2 1) crowdedRun, s.perOrigin = 1 ∧ s.globalHeld "a" = 2 ∧
      s.originHeld "b" = 0 ∧ s.connections < s.maxTotal ∧ s.Blocked 2 := by decide +kernel
  exact hrun

end ConnectionLimits

end KDown
