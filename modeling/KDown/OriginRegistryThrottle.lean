/-
KDown/OriginRegistryThrottle.lean

The shared throttle deadline of an origin (control/origin.rs).

An admission compares the deadline with the clock and then waits for a slot,
possibly for long; it does not look again (`late_throttle_ignored`).  The
deadline lives in an entry that may be evicted, and a report may write to an
entry that has been evicted meanwhile.  While none of these three happens, no
permit is returned before the latest deadline reported for its key, and the
deadline of a key only grows (`throttle_deadline_kept`).
-/
import KDown.OriginRegistryCapacity

namespace KDown

namespace AdmitPhase

/-- The entry whose deadline the call has loaded and will not load again
before it sleeps or returns. -/
def checked : AdmitPhase → Option ℕ
  | comparing id _ => some id
  | acquiring id => some id
  | queued id => some id
  | granted id => some id
  | _ => none

end AdmitPhase

/-- The entry a report refers to. -/
def ReportPhase.entry : ReportPhase → Option ℕ
  | counting id => some id
  | timing id => some id
  | loading id _ => some id
  | exchanging id _ _ => some id
  | touching id => some id
  | _ => none

namespace OriginRegistry

variable {s s' : OriginRegistry}

/-- The shared deadline of a key; zero without an entry. -/
def deadline (s : OriginRegistry) (key : String) : ℕ :=
  ((s.entries.lookup key).map fun id => (s.heap id).backoffUntil).getD 0

/-- The entry whose deadline an event extends. -/
def extended (s : OriginRegistry) : OriginEvent → Option ℕ
  | .reportNext r =>
      match (s.reports r).phase with
      | .exchanging id deadline current =>
          if current < deadline ∧ (s.heap id).backoffUntil = current then some id else none
      | _ => none
  | _ => none

/-- The clock does not go back. -/
def Forward (s : OriginRegistry) : OriginEvent → Prop
  | .tick now => s.clock ≤ now
  | _ => True

instance (s : OriginRegistry) : ∀ e, Decidable (s.Forward e)
  | .tick now => inferInstanceAs (Decidable (s.clock ≤ now))
  | .admitCall _ => .isTrue trivial
  | .admitLookup _ _ => .isTrue trivial
  | .admitNext _ => .isTrue trivial
  | .wake _ => .isTrue trivial
  | .cancel _ => .isTrue trivial
  | .dropPermit _ => .isTrue trivial
  | .report _ _ => .isTrue trivial
  | .reportLookup _ _ => .isTrue trivial
  | .reportNext _ => .isTrue trivial
  | .evictIdle => .isTrue trivial

/-- The registry coordinates; no entry is evicted that has a deadline or that
a call refers to; and no deadline is extended while an admission that has
checked it is on its way to a slot. -/
structure ThrottleSafe (s : OriginRegistry) (e : OriginEvent) : Prop where
  evict : s.EvictSafe e
  deadline : ∀ x ∈ s.removed e, (s.heap x.2).backoffUntil = 0
  report : ∀ x ∈ s.removed e, ∀ r < s.reportCount, (s.reports r).phase.entry ≠ some x.2
  extend : ∀ id ∈ s.extended e, ∀ c < s.admitCount, (s.admits c).phase.checked ≠ some id

instance (s : OriginRegistry) (e : OriginEvent) : Decidable (s.ThrottleSafe e) :=
  decidable_of_iff (s.EvictSafe e ∧ (∀ x ∈ s.removed e, (s.heap x.2).backoffUntil = 0) ∧
    (∀ x ∈ s.removed e, ∀ r < s.reportCount, (s.reports r).phase.entry ≠ some x.2) ∧
    ∀ id ∈ s.extended e, ∀ c < s.admitCount, (s.admits c).phase.checked ≠ some id)
    ⟨fun ⟨h₁, h₂, h₃, h₄⟩ => ⟨h₁, h₂, h₃, h₄⟩, fun ⟨h₁, h₂, h₃, h₄⟩ => ⟨h₁, h₂, h₃, h₄⟩⟩

/-! ### What a step does to deadlines and phases -/

theorem lookup_of_mem {l : List (String × ℕ)} (hl : (l.map Prod.fst).Nodup) {k : String} {id : ℕ}
    (h : (k, id) ∈ l) : l.lookup k = some id := by
  rcases hlook : l.lookup k with - | id'
  · exact absurd rfl (ne_of_lookup_none hlook _ h)
  · have hsame := eq_of_key hl h (mem_of_lookup hlook) rfl
    exact congrArg some (congrArg Prod.snd hsame).symm

theorem MapInv.deadline_of_mem (hm : MapInv s) {k : String} {id : ℕ} (h : (k, id) ∈ s.entries) :
    s.deadline k = (s.heap id).backoffUntil := by
  rw [deadline, lookup_of_mem hm.keys h]
  rfl

theorem backoff_setEntry {id : ℕ} {e : OriginEntry}
    (h : e.backoffUntil = (s.heap id).backoffUntil) (id' : ℕ) :
    ((s.setEntry id e).heap id').backoffUntil = (s.heap id').backoffUntil := by
  by_cases hid : id' = id
  · subst hid
    rw [heap_setEntry_self]
    exact h
  · rw [heap_setEntry_of_ne hid]

theorem backoff_releaseSlot (id id' : ℕ) :
    ((s.releaseSlot id).heap id').backoffUntil = (s.heap id').backoffUntil := by
  have hheap : (s.releaseSlot id).heap
      = (s.setEntry id { s.heap id with slots := (s.heap id).slots.handOver.1 }).heap := by
    rw [releaseSlot]
    rcases (s.heap id).slots.handOver.2 with - | c <;> rfl
  rw [hheap]
  exact backoff_setEntry (by rfl) id'

/-- Deadlines change by an extension only. -/
theorem OriginStep.backoff {e : OriginEvent} (h : OriginStep s e s') {id : ℕ} (hid : id < s.created) :
    (s'.heap id).backoffUntil = (s.heap id).backoffUntil ∨
      s.extended e = some id ∧ (s.heap id).backoffUntil < (s'.heap id).backoffUntil := by
  cases h with
  | found h hl => exact .inl (backoff_setEntry (by rfl) id)
  | made h hl hv => exact .inl (congrArg _ (heap_setEntry_of_ne hid.ne _))
  | skip h hd => exact .inl (backoff_setEntry (by rfl) id)
  | acquire h hpos => exact .inl (backoff_setEntry (by rfl) id)
  | enqueue h => exact .inl (backoff_setEntry (by rfl) id)
  | give h => exact .inl (backoff_setEntry (by rfl) id)
  | cancelQueued h => exact .inl (backoff_setEntry (by rfl) id)
  | @release c id' _ _ h => exact .inl (backoff_releaseSlot (s := s.setAdmit c .ended) id' id)
  | reportFound h hl => exact .inl (backoff_setEntry (by rfl) id)
  | reportMade h hl hv => exact .inl (congrArg _ (heap_setEntry_of_ne hid.ne _))
  | count h hph hslots hcapacity hbackoff => exact .inl (backoff_setEntry hbackoff id)
  | @extend r id' d cur h hlt hsame =>
    by_cases heq : id = id'
    · subst heq
      refine .inr ⟨?_, ?_⟩
      · rw [extended, h]
        exact if_pos ⟨hlt, hsame⟩
      · show _ < ((s.setEntry id _).heap id).backoffUntil
        rw [heap_setEntry_self, hsame]
        exact hlt
    · exact .inl (congrArg _ (heap_setEntry_of_ne heq _))
  | touchReport h => exact .inl (backoff_setEntry (by rfl) id)
  | _ => exact .inl rfl

theorem admits_setAdmit (c : ℕ) (ph : AdmitPhase) (k : ℕ) :
    k = c ∧ ((s.setAdmit c ph).admits k).phase = ph ∨ (s.setAdmit c ph).admits k = s.admits k := by
  by_cases hk : k = c
  · subst hk
    exact .inl ⟨rfl, admits_setAdmit_self k ph⟩
  · exact .inr (admits_setAdmit_of_ne hk ph)

/-- Whoever gets a slot that was released was waiting for it. -/
theorem CapacityInv.admits_release (hi : CapacityInv s) {c id : ℕ} (hid : id < s.created) (k : ℕ) :
    ((s.setAdmit c .ended).releaseSlot id).admits k = s.admits k ∨
      (((s.setAdmit c .ended).releaseSlot id).admits k).phase = .ended ∨
      (((s.setAdmit c .ended).releaseSlot id).admits k).phase = .granted id ∧
        (s.admits k).phase = .queued id := by
  have hrest : (s.setAdmit c .ended).admits k = s.admits k ∨
      ((s.setAdmit c .ended).admits k).phase = .ended := by
    rcases admits_setAdmit (s := s) c .ended k with ⟨-, h⟩ | h
    · exact .inr h
    · exact .inl h
  rcases hq : (s.heap id).slots.queue with - | ⟨c', rest⟩
  · have hout : ((s.setAdmit c .ended).releaseSlot id).admits = (s.setAdmit c .ended).admits := by
      rw [releaseSlot_of_nil (s := s.setAdmit c .ended) hq]
      rfl
    rw [hout]
    rcases hrest with h | h
    · exact .inl h
    · exact .inr (.inl h)
  · have hout : ((s.setAdmit c .ended).releaseSlot id).admits
        = ((s.setAdmit c .ended).setAdmit c' (.granted id)).admits := by
      rw [releaseSlot_of_cons (s := s.setAdmit c .ended) hq]
      rfl
    have hwaits : (s.admits c').phase = .queued id :=
      ((hi.waiting id hid).mem c').mp (by rw [hq]; exact List.mem_cons_self)
    rw [hout]
    rcases admits_setAdmit (s := s.setAdmit c .ended) c' (.granted id) k with ⟨rfl, h⟩ | h
    · exact .inr (.inr ⟨h, hwaits⟩)
    · rw [h]
      rcases hrest with h' | h'
      · exact .inl h'
      · exact .inr (.inl h')

/-- What a call knows of the deadline of its entry. -/
def Sound (s : OriginRegistry) : AdmitPhase → Prop
  | .comparing id deadline => id < s.created ∧ (s.heap id).backoffUntil = deadline
  | .acquiring id => id < s.created ∧ (s.heap id).backoffUntil ≤ s.clock
  | .queued id => id < s.created ∧ (s.heap id).backoffUntil ≤ s.clock
  | .granted id => id < s.created ∧ (s.heap id).backoffUntil ≤ s.clock
  | _ => True

/-- What the phases say after a step is true of the state before it. -/
theorem OriginStep.sound {e : OriginEvent} (hi : CapacityInv s)
    (hsound : ∀ k, s.Sound (s.admits k).phase) (h : OriginStep s e s') (k : ℕ) :
    s.Sound (s'.admits k).phase := by
  have hset : ∀ {c : ℕ} {p : AdmitPhase}, s.Sound p → s.Sound ((s.setAdmit c p).admits k).phase := by
    intro c p hph
    rcases admits_setAdmit (s := s) c p k with ⟨-, hk⟩ | hk
    · rw [hk]
      exact hph
    · rw [hk]
      exact hsound k
  cases h with
  | admitCall key =>
    show s.Sound (Function.update s.admits s.admitCount _ k).phase
    by_cases hk : k = s.admitCount
    · subst hk
      rw [Function.update_self]
      trivial
    · rw [Function.update_of_ne hk]
      exact hsound k
  | found h hl => exact hset trivial
  | made h hl hv => exact hset trivial
  | skip h hd => exact hset trivial
  | @load c id h => exact hset (p := .comparing id _) ⟨hi.lt_created (c := c) (by rw [h]; rfl), rfl⟩
  | sleep h => exact hset trivial
  | @pass c id deadline h hle =>
    have hc := hsound c
    rw [h] at hc
    exact hset (p := .acquiring id) ⟨hc.1, hc.2.trans_le hle⟩
  | @acquire c id h hpos =>
    have hc := hsound c
    rw [h] at hc
    exact hset (p := .granted id) hc
  | @enqueue c id h =>
    have hc := hsound c
    rw [h] at hc
    exact hset (p := .queued id) hc
  | give h => exact hset trivial
  | wake h => exact hset trivial
  | cancelEarly h => exact hset trivial
  | cancelQueued h => exact hset trivial
  | @release c id _ _ h =>
    have hid : id < s.created := by
      rcases h with h | h <;> exact hi.lt_created (c := c) (by rw [h]; rfl)
    rcases hi.admits_release (c := c) hid k with hk | hk | ⟨hk, hwas⟩
    · rw [hk]
      exact hsound k
    · rw [hk]
      trivial
    · have hc := hsound k
      rw [hwas] at hc
      rw [hk]
      exact hc
  | dropUnslotted h => exact hset trivial
  | _ => exact hsound k

/-- An extension is no step of an admission. -/
theorem OriginStep.admits_extended {e : OriginEvent} (h : OriginStep s e s') {id : ℕ}
    (hx : s.extended e = some id) : s'.admits = s.admits := by
  cases h with
  | release he _ => rcases he with rfl | rfl <;> cases hx
  | reportFound => cases hx
  | reportMade => cases hx
  | count => rfl
  | time => rfl
  | loadDeadline => rfl
  | finish => rfl
  | extend => rfl
  | retry => rfl
  | touchReport => rfl
  | _ => cases hx

theorem OriginStep.clock_le {e : OriginEvent} (h : OriginStep s e s') (hf : s.Forward e) :
    s.clock ≤ s'.clock := by
  cases h with
  | tick now => exact hf
  | @release c id _ _ _ =>
    obtain ⟨-, -, -, -, hclock, -⟩ := releaseSlot_frame (s := s.setAdmit c .ended) id
    exact hclock.ge
  | _ => exact le_rfl

theorem OriginStep.created_le {e : OriginEvent} (h : OriginStep s e s') : s.created ≤ s'.created := by
  cases h with
  | made => exact Nat.le_succ _
  | reportMade => exact Nat.le_succ _
  | @release c id _ _ _ =>
    obtain ⟨-, hcreated, -⟩ := releaseSlot_frame (s := s.setAdmit c .ended) id
    exact hcreated.ge
  | _ => exact le_rfl

theorem OriginStep.backoff_le {e : OriginEvent} (h : OriginStep s e s') {id : ℕ}
    (hid : id < s.created) : (s.heap id).backoffUntil ≤ (s'.heap id).backoffUntil := by
  rcases h.backoff hid with hsame | ⟨-, hlt⟩
  · exact hsame.ge
  · exact hlt.le

/-- Nobody has checked a deadline that is extended. -/
theorem OriginStep.backoff_checked {e : OriginEvent} (hi : CapacityInv s) (hok : s.ThrottleSafe e)
    (h : OriginStep s e s') {k id : ℕ} (hid : id < s.created)
    (hk : (s'.admits k).phase.checked = some id) :
    (s'.heap id).backoffUntil = (s.heap id).backoffUntil := by
  rcases h.backoff hid with hsame | ⟨hx, -⟩
  · exact hsame
  · rw [h.admits_extended hx] at hk
    have hlt : k < s.admitCount := by
      refine hi.lt_count rfl fun hno => ?_
      rw [hno] at hk
      cases hk
    exact absurd hk (hok.extend id hx k hlt)

/-- What the calls know stays true. -/
theorem OriginStep.sound_after {e : OriginEvent} (hi : CapacityInv s) (hok : s.ThrottleSafe e)
    (hf : s.Forward e) (hsound : ∀ k, s.Sound (s.admits k).phase) (h : OriginStep s e s') (k : ℕ) :
    s'.Sound (s'.admits k).phase := by
  have hbefore := h.sound hi hsound k
  have hsame : ∀ {id : ℕ}, id < s.created → (s'.admits k).phase.checked = some id →
      (s'.heap id).backoffUntil = (s.heap id).backoffUntil :=
    fun hid hk => h.backoff_checked hi hok hid hk
  have hclock := h.clock_le hf
  have hcreated := h.created_le
  rcases hph : (s'.admits k).phase with - | - | _ | ⟨id, d⟩ | _ | id | id | id | _ | - <;>
    rw [hph] at hbefore hsame
  case comparing => exact ⟨hbefore.1.trans_le hcreated, (hsame hbefore.1 rfl).trans hbefore.2⟩
  case acquiring =>
    exact ⟨hbefore.1.trans_le hcreated, (hsame hbefore.1 rfl).trans_le (hbefore.2.trans hclock)⟩
  case queued =>
    exact ⟨hbefore.1.trans_le hcreated, (hsame hbefore.1 rfl).trans_le (hbefore.2.trans hclock)⟩
  case granted =>
    exact ⟨hbefore.1.trans_le hcreated, (hsame hbefore.1 rfl).trans_le (hbefore.2.trans hclock)⟩
  all_goals trivial

/-! ### Reports -/

theorem reports_setReport (r : ℕ) (ph : ReportPhase) (k : ℕ) :
    k = r ∧ (s.setReport r ph).reports k = { s.reports r with phase := ph } ∨
      (s.setReport r ph).reports k = s.reports k := by
  by_cases hk : k = r
  · subst hk
    exact .inl ⟨rfl, Function.update_self ..⟩
  · exact .inr (Function.update_of_ne hk ..)

/-- A report refers to the entry it referred to before, or to the one it has
just looked up. -/
theorem OriginStep.report_entry {e : OriginEvent} (h : OriginStep s e s') {r id : ℕ}
    (hr : (s'.reports r).phase.entry = some id) :
    (s'.reports r).key = (s.reports r).key ∧ (s.reports r).phase.entry = some id ∨
      ((s'.reports r).key, id) ∈ s'.entries := by
  have hset : ∀ {r' : ℕ} {p : ReportPhase},
      (p.entry = some id → (s.reports r').phase.entry = some id) →
      ((s.setReport r' p).reports r).phase.entry = some id →
      ((s.setReport r' p).reports r).key = (s.reports r).key ∧
        (s.reports r).phase.entry = some id := by
    intro r' p hph hk
    rcases reports_setReport (s := s) r' p r with ⟨rfl, hrep⟩ | hrep
    · rw [hrep] at hk ⊢
      exact ⟨rfl, hph hk⟩
    · rw [hrep] at hk ⊢
      exact ⟨rfl, hk⟩
  have hlook : ∀ {r' id' : ℕ}, ((s.setReport r' (.counting id')).reports r).phase.entry = some id →
      ((s.reports r').key, id') ∈ s'.entries →
      ((s.setReport r' (.counting id')).reports r).key = (s.reports r).key ∧
          (s.reports r).phase.entry = some id ∨
        (((s.setReport r' (.counting id')).reports r).key, id) ∈ s'.entries := by
    intro r' id' hk hin
    rcases reports_setReport (s := s) r' (.counting id') r with ⟨rfl, hrep⟩ | hrep
    · rw [hrep] at hk ⊢
      obtain rfl : id' = id := Option.some.inj hk
      exact .inr hin
    · rw [hrep] at hk ⊢
      exact .inl ⟨rfl, hk⟩
  cases h with
  | report key report ph hph =>
    have hr' : (Function.update s.reports s.reportCount ⟨key, report, ph⟩ r).phase.entry = some id := hr
    show (Function.update s.reports s.reportCount ⟨key, report, ph⟩ r).key = _ ∧ _ ∨ _
    by_cases hk : r = s.reportCount
    · subst hk
      rw [Function.update_self] at hr'
      rcases hph with rfl | rfl <;> cases hr'
    · rw [Function.update_of_ne hk] at hr' ⊢
      exact .inl ⟨rfl, hr'⟩
  | reportFound h hl => exact hlook hr (mem_of_lookup hl)
  | reportMade h hl hv => exact hlook hr (List.mem_append_right _ (List.mem_singleton.mpr rfl))
  | count h hph =>
    refine .inl (hset (fun hentry => ?_) hr)
    rw [h]
    rcases hph with rfl | rfl <;> exact hentry
  | time h =>
    refine .inl (hset (fun hentry => ?_) hr)
    rw [h]
    exact hentry
  | loadDeadline h =>
    refine .inl (hset (fun hentry => ?_) hr)
    rw [h]
    exact hentry
  | finish h hle => exact .inl (hset (p := .finished) (fun hentry => by cases hentry) hr)
  | extend h hlt hsame => exact .inl (hset (p := .finished) (fun hentry => by cases hentry) hr)
  | retry h =>
    refine .inl (hset (fun hentry => ?_) hr)
    rw [h]
    exact hentry
  | touchReport h => exact .inl (hset (p := .finished) (fun hentry => by cases hentry) hr)
  | @release c id' _ _ h =>
    obtain ⟨-, -, hreports, -⟩ := releaseSlot_frame (s := s.setAdmit c .ended) id'
    rw [hreports] at hr ⊢
    exact .inl ⟨rfl, hr⟩
  | _ => exact .inl ⟨rfl, hr⟩

/-- The deadline in the exchange loop is one that the entry had. -/
theorem OriginStep.report_current {e : OriginEvent} (h : OriginStep s e s') {r id d current : ℕ}
    (hr : (s'.reports r).phase = .exchanging id d current) :
    (s.reports r).phase = .exchanging id d current ∨
      (s.reports r).phase.entry = some id ∧ current = (s.heap id).backoffUntil := by
  have hset : ∀ {r' : ℕ} {p : ReportPhase},
      (p = .exchanging id d current → (s.reports r').phase.entry = some id ∧
        current = (s.heap id).backoffUntil) →
      ((s.setReport r' p).reports r).phase = .exchanging id d current →
      (s.reports r).phase = .exchanging id d current ∨
        (s.reports r).phase.entry = some id ∧ current = (s.heap id).backoffUntil := by
    intro r' p hph hk
    rcases reports_setReport (s := s) r' p r with ⟨rfl, hrep⟩ | hrep
    · rw [hrep] at hk
      exact .inr (hph hk)
    · rw [hrep] at hk
      exact .inl hk
  cases h with
  | report key report ph hph =>
    have hr' : (Function.update s.reports s.reportCount ⟨key, report, ph⟩ r).phase
        = .exchanging id d current := hr
    by_cases hk : r = s.reportCount
    · subst hk
      rw [Function.update_self] at hr'
      rcases hph with rfl | rfl <;> cases hr'
    · rw [Function.update_of_ne hk] at hr'
      exact .inl hr'
  | reportFound h hl => exact hset (fun hno => by cases hno) hr
  | reportMade h hl hv => exact hset (fun hno => by cases hno) hr
  | count h hph => exact hset (fun hno => by rcases hph with rfl | rfl <;> cases hno) hr
  | time h => exact hset (fun hno => by cases hno) hr
  | loadDeadline h =>
    refine hset (fun hsame => ?_) hr
    cases hsame
    exact ⟨by rw [h]; rfl, rfl⟩
  | finish h hle => exact hset (p := .finished) (fun hno => by cases hno) hr
  | extend h hlt hsame => exact hset (p := .finished) (fun hno => by cases hno) hr
  | retry h =>
    refine hset (fun hsame => ?_) hr
    cases hsame
    exact ⟨by rw [h]; rfl, rfl⟩
  | touchReport h => exact hset (p := .finished) (fun hno => by cases hno) hr
  | @release c id' _ _ h =>
    obtain ⟨-, -, hreports, -⟩ := releaseSlot_frame (s := s.setAdmit c .ended) id'
    rw [hreports] at hr
    exact .inl hr
  | _ => exact .inl hr

/-- Reports that have not been made stay so. -/
theorem OriginStep.report_unused {e : OriginEvent} (h : OriginStep s e s')
    (hs : ∀ r, s.reportCount ≤ r → (s.reports r).phase = .unused) (r : ℕ)
    (hr : s'.reportCount ≤ r) : (s'.reports r).phase = .unused := by
  have hset : ∀ {r' : ℕ} {old ph : ReportPhase}, (s.reports r').phase = old → old ≠ .unused →
      s.reportCount ≤ r → ((s.setReport r' ph).reports r).phase = .unused := by
    intro r' old ph hold hne hr
    rcases reports_setReport (s := s) r' ph r with ⟨rfl, -⟩ | hrep
    · exact absurd (hold.symm.trans (hs r hr)) hne
    · rw [hrep]
      exact hs r hr
  cases h with
  | report key report ph hph =>
    show (Function.update s.reports s.reportCount _ r).phase = _
    rw [Function.update_of_ne (Nat.ne_of_gt hr)]
    exact hs r (Nat.le_of_succ_le hr)
  | reportFound h hl => exact hset h (fun hno => by cases hno) hr
  | reportMade h hl hv => exact hset h (fun hno => by cases hno) hr
  | count h hph => exact hset h (fun hno => by cases hno) hr
  | time h => exact hset h (fun hno => by cases hno) hr
  | loadDeadline h => exact hset h (fun hno => by cases hno) hr
  | finish h hle => exact hset h (fun hno => by cases hno) hr
  | extend h hlt hsame => exact hset h (fun hno => by cases hno) hr
  | retry h => exact hset h (fun hno => by cases hno) hr
  | touchReport h => exact hset h (fun hno => by cases hno) hr
  | @release c id' _ _ h =>
    have hcount : ((s.setAdmit c .ended).releaseSlot id').reportCount = s.reportCount := by
      rw [releaseSlot]
      rcases ((s.setAdmit c .ended).heap id').slots.handOver.2 with - | c' <;> rfl
    obtain ⟨-, -, hreports, -⟩ := releaseSlot_frame (s := s.setAdmit c .ended) id'
    rw [hreports]
    exact hs r (hcount ▸ hr)
  | _ => exact hs r hr

/-- What the calls have loaded was true, and is still where it must be. -/
structure ThrottleInv (s : OriginRegistry) : Prop where
  capacity : CapacityInv s
  sound : ∀ k, s.Sound (s.admits k).phase
  unused : ∀ r, s.reportCount ≤ r → (s.reports r).phase = .unused
  /-- The entry a report refers to is the one of its key. -/
  entry : ∀ r id, (s.reports r).phase.entry = some id → ((s.reports r).key, id) ∈ s.entries
  current : ∀ r id d current, (s.reports r).phase = .exchanging id d current →
    current ≤ (s.heap id).backoffUntil
  reported : ∀ key, s.reported key ≤ s.deadline key
  log : ∀ x ∈ s.log, x.2.2 ≤ x.2.1

theorem ThrottleInv.new (n m k : ℕ) (d : Bool) : ThrottleInv (new n m k d) where
  capacity := .new n m k d
  sound := fun _ => trivial
  unused := fun _ _ => rfl
  entry := fun _ _ h => by cases h
  current := fun _ _ _ _ h => by cases h
  reported := fun _ => Nat.zero_le _
  log := fun _ h => (List.not_mem_nil h).elim

theorem ThrottleInv.entry_lt (hi : ThrottleInv s) {r id : ℕ}
    (h : (s.reports r).phase.entry = some id) : id < s.created :=
  hi.capacity.map.lt _ (hi.entry r id h)

/-- Whoever is evicted has no deadline, so no deadline is lost. -/
theorem ThrottleInv.deadline_le (hi : ThrottleInv s) {e : OriginEvent} (hok : s.ThrottleSafe e)
    (h : OriginStep s e s') (key : String) : s.deadline key ≤ s'.deadline key := by
  rcases hl : s.entries.lookup key with - | id
  · rw [deadline, hl]
    exact Nat.zero_le _
  · have hmem := mem_of_lookup hl
    rw [hi.capacity.map.deadline_of_mem hmem]
    rcases h.mem_entries hi.capacity.map _ hmem with hin | ⟨hgone, -⟩
    · rw [(h.mapInv hi.capacity.map).deadline_of_mem hin]
      exact h.backoff_le (hi.capacity.map.lt _ hmem)
    · rw [hok.deadline _ hgone]
      exact Nat.zero_le _

/-- The entry a report has looked up is still in the map. -/
theorem ThrottleInv.entry_step (hi : ThrottleInv s) {e : OriginEvent} (hok : s.ThrottleSafe e)
    (h : OriginStep s e s') (r id : ℕ) (hr : (s'.reports r).phase.entry = some id) :
    ((s'.reports r).key, id) ∈ s'.entries := by
  rcases h.report_entry hr with ⟨hkey, hold⟩ | hnew
  · rw [hkey]
    rcases h.mem_entries hi.capacity.map _ (hi.entry r id hold) with hin | ⟨hgone, -⟩
    · exact hin
    · have hlt : r < s.reportCount := by
        by_contra hge
        rw [hi.unused r (not_lt.mp hge)] at hold
        cases hold
      exact absurd hold (hok.report _ hgone r hlt)
  · exact hnew

/-- What was reported is at most the deadline of an entry that is still
there. -/
theorem ThrottleInv.reported_cases (hi : ThrottleInv s) {e : OriginEvent} (h : OriginStep s e s')
    (key : String) :
    s'.reported key = s.reported key ∨ ∃ r id d, (s.reports r).phase.entry = some id ∧
      (s.reports r).key = key ∧ s'.entries = s.entries ∧ d ≤ (s'.heap id).backoffUntil ∧
      s'.reported key = max (s.reported key) d := by
  have hfinish : ∀ {r id d : ℕ}, (s.reports r).phase.entry = some id → s'.entries = s.entries →
      d ≤ (s'.heap id).backoffUntil → s'.reported = Function.update s.reported (s.reports r).key
        (max (s.reported (s.reports r).key) d) →
      s'.reported key = s.reported key ∨ ∃ r id d, (s.reports r).phase.entry = some id ∧
        (s.reports r).key = key ∧ s'.entries = s.entries ∧ d ≤ (s'.heap id).backoffUntil ∧
        s'.reported key = max (s.reported key) d := by
    intro r id d hentry hentries hd hrep
    by_cases hkey : key = (s.reports r).key
    · subst hkey
      exact .inr ⟨r, id, d, hentry, rfl, hentries, hd, by rw [hrep, Function.update_self]⟩
    · exact .inl (by rw [hrep, Function.update_of_ne hkey])
  cases h with
  | @finish r id d current h hle =>
    exact hfinish (by rw [h]; rfl) rfl (hle.trans (hi.current r id d current h)) rfl
  | @extend r id d current h hlt hsame =>
    refine hfinish (by rw [h]; rfl) rfl ?_ rfl
    show d ≤ ((s.setEntry id _).heap id).backoffUntil
    rw [heap_setEntry_self]
  | @release c id' _ _ h =>
    obtain ⟨-, -, -, hreported, -⟩ := releaseSlot_frame (s := s.setAdmit c .ended) id'
    exact .inl (congrFun hreported key)
  | _ => exact .inl rfl

/-- **A deadline never falls behind what was reported** for its origin. -/
theorem ThrottleInv.reported_step (hi : ThrottleInv s) {e : OriginEvent} (hok : s.ThrottleSafe e)
    (h : OriginStep s e s') (key : String) : s'.reported key ≤ s'.deadline key := by
  have hold : s.reported key ≤ s'.deadline key := (hi.reported key).trans (hi.deadline_le hok h key)
  rcases hi.reported_cases h key with hsame | ⟨r, id, d, hentry, rfl, hentries, hd, hmax⟩
  · rw [hsame]
    exact hold
  · have hmem : ((s.reports r).key, id) ∈ s'.entries := hentries ▸ hi.entry r id hentry
    rw [hmax]
    refine max_le hold ?_
    rw [(h.mapInv hi.capacity.map).deadline_of_mem hmem]
    exact hd

/-- Only an admission that returns writes to the log. -/
theorem OriginStep.log_cases {e : OriginEvent} (h : OriginStep s e s') (hd : s.disabled = false) :
    s'.log = s.log ∨ ∃ c id, (s.admits c).phase = .granted id ∧
      s'.log = s.log ++ [((s.admits c).key, s.clock, s.reported (s.admits c).key)] := by
  cases h with
  | skip h hdis =>
    rw [hd] at hdis
    cases hdis
  | @give c id h => exact .inr ⟨c, id, h, rfl⟩
  | @release c id' _ _ h =>
    obtain ⟨-, -, -, -, -, hlog⟩ := releaseSlot_frame (s := s.setAdmit c .ended) id'
    exact .inl hlog
  | _ => exact .inl rfl

/-- **What the calls have loaded stays true** when no deadline is passed over. -/
theorem ThrottleInv.step (hi : ThrottleInv s) {e : OriginEvent} (hok : s.ThrottleSafe e)
    (hf : s.Forward e) (hs : s.step e = some s') : ThrottleInv s' := by
  have h := originStep_of_step hs
  refine ⟨hi.capacity.step hok.evict hs, h.sound_after hi.capacity hok hf hi.sound,
    h.report_unused hi.unused, hi.entry_step hok h, fun r id d current hr => ?_,
    hi.reported_step hok h, fun x hx => ?_⟩
  · rcases h.report_current hr with hold | ⟨hentry, rfl⟩
    · have hid : id < s.created := hi.entry_lt (r := r) (by rw [hold]; rfl)
      exact (hi.current r id d current hold).trans (h.backoff_le hid)
    · exact h.backoff_le (hi.entry_lt hentry)
  · rcases h.log_cases hok.evict.1 with hsame | ⟨c, id, hc, hlog⟩
    · exact hi.log x (hsame ▸ hx)
    · rw [hlog] at hx
      rcases List.mem_append.mp hx with hin | hin
      · exact hi.log x hin
      · obtain rfl := List.mem_singleton.mp hin
        have hpast := hi.sound c
        rw [hc] at hpast
        have hmem := hi.capacity.held c id (by rw [hc]; rfl)
        calc s.reported (s.admits c).key
            ≤ s.deadline (s.admits c).key := hi.reported _
          _ = (s.heap id).backoffUntil := hi.capacity.map.deadline_of_mem hmem
          _ ≤ s.clock := hpast.2

/-- **The throttle deadline is kept.**  On a clock that does not go back, while
no entry is evicted that has a deadline or that a call refers to and no deadline
is extended under an admission that has checked it: every permit of a key was
returned at or after the latest deadline reported for the key by then, and the
shared deadline of a key never moves to an earlier time. -/
theorem throttle_deadline_kept {n m k : ℕ} {d : Bool}
    (h : Reach step (fun s e => s.ThrottleSafe e ∧ s.Forward e) (· = new n m k d) s) :
    (∀ key t reported, (key, t, reported) ∈ s.log → reported ≤ t) ∧
      ∀ s', Reach step (fun s e => s.ThrottleSafe e ∧ s.Forward e) (· = s) s' →
        ∀ key, s.deadline key ≤ s'.deadline key := by
  have hi : ThrottleInv s := h.invariant (fun _ hnew => hnew ▸ .new n m k d)
    fun _ _ _ hi hok hs => hi.step hok.1 hok.2 hs
  refine ⟨fun key t reported hx => hi.log _ hx, fun s' h' key => ?_⟩
  have hlater : ThrottleInv s' ∧ s.deadline key ≤ s'.deadline key := by
    refine h'.invariant (I := fun t => ThrottleInv t ∧ s.deadline key ≤ t.deadline key) ?_ ?_
    · rintro _ rfl
      exact ⟨hi, le_rfl⟩
    · rintro t e t' ⟨ht, hle⟩ hok hs
      exact ⟨ht.step hok.1 hok.2 hs, hle.trans (ht.deadline_le hok.1 (originStep_of_step hs) key)⟩
  exact hlater.2

/-- A throttle of 100 ms is reported, an admission sleeps until it is over and
gets its permit then. -/
def throttledRun : List OriginEvent :=
  [OriginEvent.report "a" (.throttle (some 100) 5), .reportLookup 0 []] ++
    List.replicate 4 (OriginEvent.reportNext 0) ++
    [OriginEvent.admitCall "a", .admitLookup 0 [], .admitNext 0, .admitNext 0, .tick 100, .wake 0] ++
    List.replicate 4 (OriginEvent.admitNext 0)

/-- A request that comes after the report is not admitted before the deadline. -/
theorem throttle_deadline_kept_throttledRun :
    ∃ s, runEvents step (new 1 4 300000 false) throttledRun = some s ∧ s.log = [("a", 100, 100)] ∧
      100 ≤ 100 := by
  have hok : runOk step (fun s e => s.ThrottleSafe e ∧ s.Forward e) (new 1 4 300000 false)
      throttledRun := by decide +kernel
  have hrun : ∃ s ∈ runEvents step (new 1 4 300000 false) throttledRun, s.log = [("a", 100, 100)] := by
    decide +kernel
  obtain ⟨s, hs, hlog⟩ := hrun
  have hkept := throttle_deadline_kept (.of_run (.start rfl) hok hs)
  exact ⟨s, hs, hlog, hkept.1 "a" 100 100 (by rw [hlog]; exact List.mem_singleton.mpr rfl)⟩

/-- An admission finds no deadline; a throttle of 100 ms is reported before it
gets its slot. -/
def lateThrottleRun : List OriginEvent :=
  [OriginEvent.admitCall "a", .admitLookup 0 [], .admitNext 0, .admitNext 0,
    .report "a" (.throttle (some 100) 5), .reportLookup 0 []] ++
    List.replicate 4 (OriginEvent.reportNext 0) ++
    [OriginEvent.admitNext 0, .admitNext 0]

/-- **A throttle reported after the admission began is ignored by it.** -/
theorem late_throttle_ignored :
    ∃ s, runEvents step (new 1 4 300000 false) lateThrottleRun = some s ∧
      runOk step (fun s e => s.Forward e) (new 1 4 300000 false) lateThrottleRun ∧
      ("a", 0, 100) ∈ s.log := by
  have hok : runOk step (fun s e => s.Forward e) (new 1 4 300000 false) lateThrottleRun := by
    decide +kernel
  have hrun : ∃ s ∈ runEvents step (new 1 4 300000 false) lateThrottleRun, ("a", 0, 100) ∈ s.log := by
    decide +kernel
  obtain ⟨s, hs, hlog⟩ := hrun
  exact ⟨s, hs, hok, hlog⟩

end OriginRegistry

end KDown
