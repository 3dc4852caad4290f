/-
KDown/OriginRegistryCapacity.lean

How many permits of one origin are alive at once (control/origin.rs).

The slots are counted in an entry.  An entry without slots in use may be
evicted while a call that has looked it up has not taken its slot yet; the
next call for the key then finds a new entry with all its slots
(`evicted_entry_doubles_capacity`).  While no entry is evicted that such a call
refers to, all permits of a key come from one entry and there are never more
than its capacity (`permits_within_capacity`).
-/
import KDown.OriginRegistry
import KDown.Tally

namespace KDown

namespace AdmitPhase

/-- The entry a call refers to. -/
def entry : AdmitPhase → Option ℕ
  | loading id => some id
  | comparing id _ => some id
  | sleeping id => some id
  | acquiring id => some id
  | queued id => some id
  | granted id => some id
  | holding id _ => some id
  | _ => none

/-- The entry a call refers to that has not returned yet. -/
def lookedUp : AdmitPhase → Option ℕ
  | loading id => some id
  | comparing id _ => some id
  | sleeping id => some id
  | acquiring id => some id
  | queued id => some id
  | granted id => some id
  | _ => none

/-- The call has a slot of entry `id`. -/
def hasSlot (id : ℕ) : AdmitPhase → Bool
  | granted id' => id' = id
  | holding id' slot => id' = id && slot
  | _ => false

/-- The permit is alive. -/
def isAlive : AdmitPhase → Bool
  | holding _ _ => true
  | _ => false

end AdmitPhase

namespace OriginRegistry

variable {s s' : OriginRegistry}

/-! ### What is evicted -/

/-- The entries that go when a new key comes. -/
def removal (s : OriginRegistry) (key : String) (victims : List String) : List (String × ℕ) :=
  if (s.entries.lookup key).isSome then []
  else s.entries.filter fun x =>
    x.1 ∈ victims || (decide (s.maxEntries ≤ s.entries.length) && !s.isKept x.2)

/-- The entries that an event evicts. -/
def removed (s : OriginRegistry) : OriginEvent → List (String × ℕ)
  | .admitLookup c victims => s.removal (s.admits c).key victims
  | .reportLookup r victims => s.removal (s.reports r).key victims
  | .evictIdle => s.entries.filter fun x => !s.isKept x.2
  | _ => []

theorem mem_of_lookup {l : List (String × ℕ)} {k : String} {id : ℕ} (h : l.lookup k = some id) :
    (k, id) ∈ l := by
  obtain ⟨l₁, l₂, rfl, -⟩ := List.lookup_eq_some_iff.mp h
  exact List.mem_append_right _ List.mem_cons_self

theorem ne_of_lookup_none {l : List (String × ℕ)} {k : String} (h : l.lookup k = none) :
    ∀ x ∈ l, x.1 ≠ k := by
  intro x hx heq
  have hno := List.lookup_eq_none_iff.mp h x hx
  rw [heq] at hno
  simp at hno

/-- Keys are unique. -/
theorem eq_of_key {l : List (String × ℕ)} (hl : (l.map Prod.fst).Nodup) {x y : String × ℕ}
    (hx : x ∈ l) (hy : y ∈ l) (h : x.1 = y.1) : x = y := List.inj_on_of_nodup_map hl hx hy h

theorem evictOver_sublist {map map' : List (String × ℕ)} {victims : List String}
    (h : s.evictOver map victims = some map') : map'.Sublist map := by
  induction victims generalizing map with
  | nil =>
    rw [evictOver] at h
    split_ifs at h
    cases h
    exact List.Sublist.refl _
  | cons victim victims ih =>
    rw [evictOver] at h
    split at h
    · cases h
    · split_ifs at h
      exact (ih h).trans List.filter_sublist

/-- Whoever goes by the size cap is a victim and idle. -/
theorem evictOver_mem {map map' : List (String × ℕ)} {victims : List String}
    (hkeys : (map.map Prod.fst).Nodup) (h : s.evictOver map victims = some map') :
    ∀ x ∈ map, x ∈ map' ∨ x.1 ∈ victims ∧ (s.heap x.2).inFlight = 0 := by
  induction victims generalizing map with
  | nil =>
    rw [evictOver] at h
    split_ifs at h
    cases h
    exact fun x hx => .inl hx
  | cons victim victims ih =>
    rw [evictOver] at h
    split at h
    · cases h
    · next id hl =>
      split_ifs at h with hc
      intro x hx
      by_cases hkey : x.1 = victim
      · have hsame : x = (victim, id) := eq_of_key hkeys hx (mem_of_lookup hl) hkey
        refine .inr ⟨by rw [hkey]; exact List.mem_cons_self, ?_⟩
        rw [hsame]
        exact hc.2.1
      · have hkeys' : ((map.filter fun x => x.1 ≠ victim).map Prod.fst).Nodup :=
          hkeys.sublist (List.filter_sublist.map _)
        rcases ih hkeys' h x (List.mem_filter.mpr ⟨hx, decide_eq_true hkey⟩) with hin | ⟨hv, hidle⟩
        · exact .inl hin
        · exact .inr ⟨List.mem_cons_of_mem _ hv, hidle⟩

/-- Keys are unique and entries are numbered in turn. -/
structure MapInv (s : OriginRegistry) : Prop where
  keys : (s.entries.map Prod.fst).Nodup
  lt : ∀ x ∈ s.entries, x.2 < s.created

theorem inFlight_of_not_isKept {id : ℕ} (h : s.isKept id = false) : (s.heap id).inFlight = 0 := by
  rw [isKept, Bool.or_eq_false_iff] at h
  exact Nat.eq_zero_of_not_pos (of_decide_eq_false h.1)

theorem evicted_sublist {victims : List String} {map : List (String × ℕ)}
    (h : s.evicted victims = some map) : map.Sublist s.entries := by
  rw [evicted] at h
  split_ifs at h
  · exact (evictOver_sublist h).trans List.filter_sublist
  · exact evictOver_sublist h

/-- An entry is still there after a new key has come, or it was idle and is
among those that go. -/
theorem MapInv.mem_evicted (hm : MapInv s) {key : String} {victims : List String}
    {map : List (String × ℕ)} (hl : s.entries.lookup key = none) (h : s.evicted victims = some map) :
    ∀ x ∈ s.entries, x ∈ map ∨ x ∈ s.removal key victims ∧ (s.heap x.2).inFlight = 0 := by
  intro x hx
  rw [removal, hl, if_neg (by simp)]
  rw [evicted] at h
  split_ifs at h with hfull
  · by_cases hkept : s.isKept x.2 = true
    · have hkeys : ((s.evictIdleEntries s.entries).map Prod.fst).Nodup :=
        hm.keys.sublist (List.filter_sublist.map _)
      rcases evictOver_mem hkeys h x (List.mem_filter.mpr ⟨hx, hkept⟩) with hin | ⟨hv, hidle⟩
      · exact .inl hin
      · exact .inr ⟨List.mem_filter.mpr ⟨hx, by simp [hv]⟩, hidle⟩
    · have hno : s.isKept x.2 = false := by simpa using hkept
      exact .inr ⟨List.mem_filter.mpr ⟨hx, by simp [hno, hfull]⟩, inFlight_of_not_isKept hno⟩
  · rcases evictOver_mem hm.keys h x hx with hin | ⟨hv, hidle⟩
    · exact .inl hin
    · exact .inr ⟨List.mem_filter.mpr ⟨hx, by simp [hv]⟩, hidle⟩

theorem MapInv.new (n m k : ℕ) (d : Bool) : MapInv (new n m k d) where
  keys := List.nodup_nil
  lt := fun _ hx => (List.not_mem_nil hx).elim

theorem MapInv.of_eq (hm : MapInv s) (hentries : s'.entries = s.entries)
    (hcreated : s'.created = s.created) : MapInv s' where
  keys := hentries ▸ hm.keys
  lt := fun x hx => by
    rw [hcreated]
    exact hm.lt x (hentries ▸ hx)

theorem MapInv.create (hm : MapInv s) {key : String} {victims : List String}
    {map : List (String × ℕ)} (hl : s.entries.lookup key = none) (h : s.evicted victims = some map) :
    MapInv (s.create key map) where
  keys := by
    show ((map ++ [(key, s.created)]).map Prod.fst).Nodup
    rw [List.map_append]
    refine List.nodup_append.mpr
      ⟨hm.keys.sublist ((evicted_sublist h).map _), List.nodup_singleton _, fun a ha b hb hab => ?_⟩
    obtain ⟨x, hx, rfl⟩ := List.mem_map.mp ha
    rw [List.mem_singleton.mp hb] at hab
    exact ne_of_lookup_none hl x ((evicted_sublist h).subset hx) hab
  lt := fun x hx => by
    rcases List.mem_append.mp hx with hin | hin
    · exact (hm.lt x ((evicted_sublist h).subset hin)).trans (Nat.lt_succ_self _)
    · rw [List.mem_singleton.mp hin]
      exact Nat.lt_succ_self _

theorem releaseSlot_frame (id : ℕ) :
    (s.releaseSlot id).entries = s.entries ∧ (s.releaseSlot id).created = s.created ∧
      (s.releaseSlot id).reports = s.reports ∧ (s.releaseSlot id).reported = s.reported ∧
      (s.releaseSlot id).clock = s.clock ∧ (s.releaseSlot id).log = s.log := by
  rw [releaseSlot]
  rcases (s.heap id).slots.handOver.2 with - | c <;> exact ⟨rfl, rfl, rfl, rfl, rfl, rfl⟩

theorem OriginStep.mapInv {e : OriginEvent} (hm : MapInv s) (h : OriginStep s e s') : MapInv s' := by
  cases h with
  | made h hl hv => exact (hm.create hl hv).of_eq rfl rfl
  | reportMade h hl hv => exact (hm.create hl hv).of_eq rfl rfl
  | @release c id _ _ h =>
    obtain ⟨hentries, hcreated, -⟩ := releaseSlot_frame (s := s.setAdmit c .ended) id
    exact hm.of_eq hentries hcreated
  | evictIdle =>
    exact ⟨hm.keys.sublist (List.filter_sublist.map _), fun x hx => hm.lt x (List.mem_of_mem_filter hx)⟩
  | _ => exact hm.of_eq rfl rfl

/-- An entry that is not there any more was idle and among those evicted. -/
theorem OriginStep.mem_entries {e : OriginEvent} (hm : MapInv s) (h : OriginStep s e s') :
    ∀ x ∈ s.entries, x ∈ s'.entries ∨ x ∈ s.removed e ∧ (s.heap x.2).inFlight = 0 := by
  intro x hx
  cases h with
  | made h hl hv =>
    rcases hm.mem_evicted hl hv x hx with hin | hgone
    · exact .inl (List.mem_append_left _ hin)
    · exact .inr hgone
  | reportMade h hl hv =>
    rcases hm.mem_evicted hl hv x hx with hin | hgone
    · exact .inl (List.mem_append_left _ hin)
    · exact .inr hgone
  | @release c id _ _ h =>
    rw [(releaseSlot_frame (s := s.setAdmit c .ended) id).1]
    exact .inl hx
  | evictIdle =>
    by_cases hkept : s.isKept x.2 = true
    · exact .inl (List.mem_filter.mpr ⟨hx, hkept⟩)
    · have hno : s.isKept x.2 = false := by simpa using hkept
      exact .inr ⟨List.mem_filter.mpr ⟨hx, by simp [hno]⟩, inFlight_of_not_isKept hno⟩
  | _ => exact .inl hx

/-! ### Slots -/

/-- Calls that have a slot of entry `id`. -/
def slotsHeld (s : OriginRegistry) (id : ℕ) : ℕ :=
  tally s.admitCount (fun c : AdmitCall => if c.phase.hasSlot id then 1 else 0) s.admits

/-- Permits of the key that are alive. -/
def alive (s : OriginRegistry) (key : String) : ℕ :=
  tally s.admitCount (fun c : AdmitCall => if c.key = key ∧ c.phase.isAlive then 1 else 0) s.admits

/-- The registry coordinates, and no entry is evicted that an admission has
looked up and not returned from. -/
def EvictSafe (s : OriginRegistry) (e : OriginEvent) : Prop :=
  s.disabled = false ∧
    ∀ x ∈ s.removed e, ∀ c < s.admitCount, (s.admits c).phase.lookedUp ≠ some x.2

instance (s : OriginRegistry) (e : OriginEvent) : Decidable (s.EvictSafe e) :=
  inferInstanceAs (Decidable (_ ∧ ∀ x ∈ s.removed e, ∀ c < s.admitCount, _ ≠ _))

/-- The map, the calls and the permits of every entry fit together. -/
structure CapacityInv (s : OriginRegistry) : Prop where
  map : MapInv s
  unused : ∀ c, s.admitCount ≤ c → (s.admits c).phase = .unused
  /-- The entry a call refers to is the one of its key. -/
  held : ∀ c id, (s.admits c).phase.entry = some id → ((s.admits c).key, id) ∈ s.entries
  capacity : ∀ id < s.created, (s.heap id).capacity = s.capacityPerOrigin
  slots : ∀ id < s.created, (s.heap id).slots.available + s.slotsHeld id = s.capacityPerOrigin
  waiting : ∀ id < s.created, (s.heap id).slots.Waiting fun c => (s.admits c).phase = .queued id
  slotted : ∀ c id slot, (s.admits c).phase = .holding id slot → slot = true
  positive : 0 < s.capacityPerOrigin

theorem CapacityInv.new (n m k : ℕ) (d : Bool) : CapacityInv (new n m k d) where
  map := .new n m k d
  unused := fun _ _ => rfl
  held := fun _ _ h => by cases h
  capacity := fun _ h => absurd h (Nat.not_lt_zero _)
  slots := fun _ h => absurd h (Nat.not_lt_zero _)
  waiting := fun _ h => absurd h (Nat.not_lt_zero _)
  slotted := fun _ _ _ h => by cases h
  positive := lt_of_lt_of_le Nat.zero_lt_one (Nat.le_max_right n 1)

theorem CapacityInv.lt_count (hi : CapacityInv s) {c : ℕ} {ph : AdmitPhase}
    (h : (s.admits c).phase = ph) (hne : ph ≠ .unused) : c < s.admitCount := by
  by_contra hge
  exact hne (h.symm.trans (hi.unused c (not_lt.mp hge)))

theorem CapacityInv.lt_created (hi : CapacityInv s) {c id : ℕ}
    (h : (s.admits c).phase.entry = some id) : id < s.created := hi.map.lt _ (hi.held c id h)

/-- Nobody refers to what is not there yet. -/
theorem CapacityInv.slotsHeld_created (hi : CapacityInv s) : s.slotsHeld s.created = 0 := by
  rw [slotsHeld, tally]
  refine Finset.sum_eq_zero fun c _ => if_neg fun hslot => ?_
  have hentry : (s.admits c).phase.entry = some s.created := by
    rcases hph : (s.admits c).phase <;> rw [hph] at hslot <;> simp_all [AdmitPhase.hasSlot,
      AdmitPhase.entry]
  exact absurd (hi.lt_created hentry) (lt_irrefl _)

/-- Neither calls nor slots change; entries that go are idle and not referred
to. -/
theorem CapacityInv.frame (hi : CapacityInv s) (hm : MapInv s')
    (hadmits : s'.admits = s.admits) (hcount : s'.admitCount = s.admitCount)
    (hcreated : s'.created = s.created) (hcap : s'.capacityPerOrigin = s.capacityPerOrigin)
    (hheap : ∀ id, (s'.heap id).capacity = (s.heap id).capacity ∧
      (s'.heap id).slots = (s.heap id).slots)
    (hheld : ∀ c id, (s.admits c).phase.entry = some id → ((s.admits c).key, id) ∈ s'.entries) :
    CapacityInv s' := by
  refine ⟨hm, ?_, ?_, fun id hid => ?_, fun id hid => ?_, fun id hid => ?_, ?_, ?_⟩
  · rw [hadmits, hcount]
    exact hi.unused
  · rw [hadmits]
    exact hheld
  · rw [(hheap id).1, hcap]
    exact hi.capacity id (hcreated ▸ hid)
  · rw [(hheap id).2, hcap, slotsHeld, hadmits, hcount]
    exact hi.slots id (hcreated ▸ hid)
  · rw [(hheap id).2, hadmits]
    exact hi.waiting id (hcreated ▸ hid)
  · rw [hadmits]
    exact hi.slotted
  · rw [hcap]
    exact hi.positive

/-- Call `c` moves on to `ph`, and the slots of entry `id` change with it. -/
theorem CapacityInv.move (hi : CapacityInv s) {c : ℕ} (id : ℕ) {old ph : AdmitPhase}
    (hold : (s.admits c).phase = old) (hne : old ≠ .unused)
    (hadmits : s'.admits = Function.update s.admits c { s.admits c with phase := ph })
    (hcount : s'.admitCount = s.admitCount) (hentries : s'.entries = s.entries)
    (hcreated : s'.created = s.created) (hcap : s'.capacityPerOrigin = s.capacityPerOrigin)
    (hheap : ∀ id', (s'.heap id').capacity = (s.heap id').capacity ∧
      (id' ≠ id → (s'.heap id').slots = (s.heap id').slots))
    (hslots : (s'.heap id).slots.available + (if ph.hasSlot id then 1 else 0)
      = (s.heap id).slots.available + (if old.hasSlot id then 1 else 0))
    (hwaiting : id < s.created →
      (s'.heap id).slots.Waiting fun k => (s'.admits k).phase = .queued id)
    (hother : ∀ id', id' ≠ id → ph.hasSlot id' = old.hasSlot id' ∧ (ph = .queued id' ↔ old = .queued id'))
    (hentry : ∀ id', ph.entry = some id' → ((s.admits c).key, id') ∈ s.entries)
    (hslotted : ∀ id' slot, ph = .holding id' slot → slot = true) : CapacityInv s' := by
  have hlt := hi.lt_count hold hne
  have hself : s'.admits c = { s.admits c with phase := ph } := by
    rw [hadmits, Function.update_self]
  have helse : ∀ k, k ≠ c → s'.admits k = s.admits k := fun k hk => by
    rw [hadmits, Function.update_of_ne hk]
  refine ⟨hi.map.of_eq hentries hcreated, fun k hk => ?_, fun k id' hk => ?_, fun id' hid => ?_,
    fun id' hid => ?_, fun id' hid => ?_, fun k id' slot hk => ?_, ?_⟩
  · rw [hcount] at hk
    rw [helse k (Nat.ne_of_gt (hlt.trans_le hk))]
    exact hi.unused k hk
  · rw [hentries]
    by_cases hkc : k = c
    · subst hkc
      rw [hself] at hk ⊢
      exact hentry id' hk
    · rw [helse k hkc] at hk ⊢
      exact hi.held k id' hk
  · rw [(hheap id').1, hcap]
    exact hi.capacity id' (hcreated ▸ hid)
  · have htally := tally_update hlt
      (fun c : AdmitCall => if c.phase.hasSlot id' then 1 else 0) s.admits
      { s.admits c with phase := ph }
    rw [← hadmits] at htally
    simp only [hold] at htally
    have hbefore := hi.slots id' (hcreated ▸ hid)
    rw [slotsHeld] at hbefore
    rw [hcap, slotsHeld, hcount]
    by_cases hid' : id' = id
    · subst hid'
      omega
    · rw [(hheap id').2 hid']
      rw [(hother id' hid').1] at htally
      omega
  · by_cases hid' : id' = id
    · subst hid'
      exact hwaiting (hcreated ▸ hid)
    · refine (hi.waiting id' (hcreated ▸ hid)).congr (congrArg _ ((hheap id').2 hid')) fun k => ?_
      by_cases hkc : k = c
      · subst hkc
        rw [hself, hold]
        exact (hother id' hid').2
      · rw [helse k hkc]
  · by_cases hkc : k = c
    · subst hkc
      rw [hself] at hk
      exact hslotted id' slot hk
    · rw [helse k hkc] at hk
      exact hi.slotted k id' slot hk
  · rw [hcap]
    exact hi.positive

/-- Call `c` moves on and the slots stay. -/
theorem CapacityInv.move_same (hi : CapacityInv s) {c : ℕ} {old ph : AdmitPhase}
    (hold : (s.admits c).phase = old) (hne : old ≠ .unused)
    (hadmits : s'.admits = Function.update s.admits c { s.admits c with phase := ph })
    (hcount : s'.admitCount = s.admitCount) (hentries : s'.entries = s.entries)
    (hcreated : s'.created = s.created) (hcap : s'.capacityPerOrigin = s.capacityPerOrigin)
    (hheap : ∀ id', (s'.heap id').capacity = (s.heap id').capacity ∧
      (s'.heap id').slots = (s.heap id').slots)
    (hslot : ∀ id', ph.hasSlot id' = old.hasSlot id') (hqueued : ∀ id', ph ≠ .queued id')
    (hqueued' : ∀ id', old ≠ .queued id')
    (hentry : ∀ id', ph.entry = some id' → ((s.admits c).key, id') ∈ s.entries)
    (hslotted : ∀ id' slot, ph = .holding id' slot → slot = true) : CapacityInv s' := by
  refine hi.move s.created hold hne hadmits hcount hentries hcreated hcap
    (fun id' => ⟨(hheap id').1, fun _ => (hheap id').2⟩) ?_ (fun hlt => absurd hlt (lt_irrefl _))
    (fun id' _ => ⟨hslot id', fun h => absurd h (hqueued id'), fun h => absurd h (hqueued' id')⟩)
    hentry hslotted
  rw [(hheap s.created).2, hslot]

theorem heap_setEntry_self (id : ℕ) (e : OriginEntry) : (s.setEntry id e).heap id = e :=
  Function.update_self ..

theorem heap_setEntry_of_ne {id id' : ℕ} (h : id' ≠ id) (e : OriginEntry) :
    (s.setEntry id e).heap id' = s.heap id' := Function.update_of_ne h ..

/-- An entry changes, but not its slots. -/
theorem heap_setEntry_same {id : ℕ} {e : OriginEntry} (hslots : e.slots = (s.heap id).slots)
    (hcapacity : e.capacity = (s.heap id).capacity) (id' : ℕ) :
    ((s.setEntry id e).heap id').capacity = (s.heap id').capacity ∧
      ((s.setEntry id e).heap id').slots = (s.heap id').slots := by
  by_cases h : id' = id
  · subst h
    rw [heap_setEntry_self]
    exact ⟨hcapacity, hslots⟩
  · rw [heap_setEntry_of_ne h]
    exact ⟨rfl, rfl⟩

/-- The slots of entry `id` change, and nothing else of any entry. -/
theorem heap_setSlots (id : ℕ) (slots : FairSemaphore ℕ) (id' : ℕ) :
    ((s.setEntry id { s.heap id with slots := slots }).heap id').capacity = (s.heap id').capacity ∧
      (id' ≠ id →
        ((s.setEntry id { s.heap id with slots := slots }).heap id').slots = (s.heap id').slots) := by
  by_cases h : id' = id
  · subst h
    rw [heap_setEntry_self]
    exact ⟨rfl, fun hne => absurd rfl hne⟩
  · rw [heap_setEntry_of_ne h]
    exact ⟨rfl, fun _ => rfl⟩

theorem admits_setAdmit_self (c : ℕ) (ph : AdmitPhase) :
    ((s.setAdmit c ph).admits c).phase = ph := by
  show (Function.update s.admits c _ c).phase = ph
  rw [Function.update_self]

theorem admits_setAdmit_of_ne {c k : ℕ} (h : k ≠ c) (ph : AdmitPhase) :
    (s.setAdmit c ph).admits k = s.admits k := Function.update_of_ne h ..

/-- The entry of a permit is in use. -/
theorem CapacityInv.inFlight_pos (hi : CapacityInv s) {c id : ℕ}
    (h : (s.admits c).phase = .holding id true) : 0 < (s.heap id).inFlight := by
  have hid : id < s.created := hi.lt_created (c := c) (by rw [h]; rfl)
  have hle := le_tally (hi.lt_count h (fun hno => by cases hno))
    (fun c : AdmitCall => if c.phase.hasSlot id then 1 else 0) s.admits
  rw [if_pos (by rw [h]; simp [AdmitPhase.hasSlot])] at hle
  have hslots := hi.slots id hid
  rw [slotsHeld] at hslots
  have hcapacity := hi.capacity id hid
  rw [OriginEntry.inFlight]
  omega

/-- The entries that calls refer to stay. -/
theorem CapacityInv.still_there (hi : CapacityInv s) {e : OriginEvent} (hok : s.EvictSafe e)
    (h : OriginStep s e s') (c id : ℕ) (hc : (s.admits c).phase.entry = some id) :
    ((s.admits c).key, id) ∈ s'.entries := by
  rcases h.mem_entries hi.map _ (hi.held c id hc) with hin | ⟨hgone, hidle⟩
  · exact hin
  · have hlt : c < s.admitCount := by
      refine hi.lt_count rfl fun hno => ?_
      rw [hno] at hc
      cases hc
    have hsafe := hok.2 _ hgone c hlt
    rcases hph : (s.admits c).phase with - | - | _ | _ | _ | _ | _ | _ | ⟨id', slot⟩ | - <;>
      rw [hph] at hc hsafe <;> first | exact absurd hc hsafe | skip
    -- a permit keeps its entry in use
    obtain rfl : id' = id := Option.some.inj hc
    obtain rfl := hi.slotted c id' slot hph
    have hpos := hi.inFlight_pos hph
    exact absurd hidle hpos.ne'

/-- A new entry has all its permits. -/
theorem CapacityInv.create (hi : CapacityInv s) {key : String} {victims : List String}
    {map : List (String × ℕ)} (hl : s.entries.lookup key = none) (hm : s.evicted victims = some map)
    (hheld : ∀ c id, (s.admits c).phase.entry = some id →
      ((s.admits c).key, id) ∈ (s.create key map).entries) : CapacityInv (s.create key map) := by
  have hother : ∀ {id : ℕ}, id ≠ s.created → (s.create key map).heap id = s.heap id :=
    fun h => Function.update_of_ne h ..
  have hself : (s.create key map).heap s.created = .new s.capacityPerOrigin s.clock :=
    Function.update_self ..
  have hmax : max s.capacityPerOrigin 1 = s.capacityPerOrigin := Nat.max_eq_left hi.positive
  refine ⟨hi.map.create hl hm, hi.unused, hheld,
    fun id hid => ?_, fun id hid => ?_, fun id hid => ?_, hi.slotted, hi.positive⟩
  · by_cases heq : id = s.created
    · rw [heq, hself]
      exact hmax
    · rw [hother heq]
      exact hi.capacity id (lt_of_le_of_ne (Nat.le_of_lt_succ hid) heq)
  · by_cases heq : id = s.created
    · rw [heq, hself]
      show max s.capacityPerOrigin 1 + s.slotsHeld s.created = s.capacityPerOrigin
      rw [hi.slotsHeld_created, hmax]
      exact Nat.add_zero _
    · rw [hother heq]
      exact hi.slots id (lt_of_le_of_ne (Nat.le_of_lt_succ hid) heq)
  · by_cases heq : id = s.created
    · rw [heq, hself]
      refine ⟨List.nodup_nil, fun c => ⟨fun hin => (List.not_mem_nil hin).elim, fun hc => ?_⟩⟩
      have hc' : (s.admits c).phase = .queued s.created := hc
      exact absurd (hi.lt_created (c := c) (by rw [hc']; rfl)) (lt_irrefl _)
    · rw [hother heq]
      exact hi.waiting id (lt_of_le_of_ne (Nat.le_of_lt_succ hid) heq)

/-- A call gives its slot up, and nobody takes it. -/
theorem CapacityInv.giveUp (hi : CapacityInv s) {c id : ℕ}
    (h : (s.admits c).phase = .granted id ∨ (s.admits c).phase = .holding id true) :
    CapacityInv ((s.setEntry id
      { s.heap id with slots := (s.heap id).slots.release }).setAdmit c .ended) := by
  have hmove : ∀ {old : AdmitPhase}, (s.admits c).phase = old → old ≠ .unused →
      old.hasSlot id = true → (∀ id', id' ≠ id → old.hasSlot id' = false) →
      (∀ id', old ≠ .queued id') → CapacityInv ((s.setEntry id
        { s.heap id with slots := (s.heap id).slots.release }).setAdmit c .ended) := by
    intro old hold hne hslot hother hqueued
    refine hi.move id hold hne rfl rfl rfl rfl rfl (heap_setSlots id _) ?_ (fun hid => ?_)
      (fun id' hid => ?_) (fun id' hno => by cases hno) (fun id' slot hno => by cases hno)
    · show ((s.setEntry id _).heap id).slots.available + 0 = _
      rw [heap_setEntry_self, if_pos hslot]
      rfl
    · show ((s.setEntry id _).heap id).slots.Waiting _
      rw [heap_setEntry_self]
      refine (hi.waiting id hid).congr rfl fun k => ?_
      by_cases hkc : k = c
      · subst hkc
        rw [admits_setAdmit_self, hold]
        exact ⟨(fun hno => by cases hno), fun hno => absurd hno (hqueued id)⟩
      · rw [admits_setAdmit_of_ne hkc]
        rfl
    · rw [hother id' hid]
      exact ⟨rfl, (fun hno => by cases hno), fun hno => absurd hno (hqueued id')⟩
  rcases h with h | h
  · exact hmove h (fun hno => by cases hno) (decide_eq_true rfl)
      (fun id' hne => decide_eq_false hne.symm) (fun id' hno => by cases hno)
  · refine hmove h (fun hno => by cases hno) ?_ (fun id' hne => ?_) (fun id' hno => by cases hno)
    · simp [AdmitPhase.hasSlot]
    · simp [AdmitPhase.hasSlot, hne.symm]

/-- Nobody is waiting for the slot. -/
theorem releaseSlot_of_nil {id : ℕ} (h : (s.heap id).slots.queue = []) :
    s.releaseSlot id = s.setEntry id { s.heap id with slots := (s.heap id).slots.release } := by
  rw [releaseSlot, FairSemaphore.handOver, h]

theorem releaseSlot_of_cons {id c : ℕ} {rest : List ℕ} (h : (s.heap id).slots.queue = c :: rest) :
    s.releaseSlot id = (s.setEntry id
      { s.heap id with slots := { (s.heap id).slots with queue := rest } }).setAdmit c (.granted id) := by
  rw [releaseSlot, FairSemaphore.handOver, h]

/-- The first waiter gets the slot that was given up. -/
theorem CapacityInv.release (hi : CapacityInv s) {c id : ℕ}
    (h : (s.admits c).phase = .granted id ∨ (s.admits c).phase = .holding id true) :
    CapacityInv ((s.setAdmit c .ended).releaseSlot id) := by
  have hgiven := hi.giveUp h
  have hid : id < s.created := by
    refine hi.lt_created (c := c) ?_
    rcases h with h | h <;> rw [h] <;> rfl
  rcases hq : (s.heap id).slots.queue with - | ⟨c', rest⟩
  · rw [releaseSlot_of_nil (s := s.setAdmit c .ended) hq]
    exact hgiven
  · have hout : (s.setAdmit c .ended).releaseSlot id = ((s.setAdmit c .ended).setEntry id
        { s.heap id with slots := { (s.heap id).slots with queue := rest } }).setAdmit c'
          (.granted id) := releaseSlot_of_cons hq
    rw [hout]
    -- the waiter is another call, and it is still waiting
    have hwaits : (s.admits c').phase = .queued id :=
      ((hi.waiting id hid).mem c').mp (by rw [hq]; exact List.mem_cons_self)
    have hne : c' ≠ c := by
      rintro rfl
      rcases h with h | h <;> rw [h] at hwaits <;> cases hwaits
    have hheap : ((s.setEntry id { s.heap id with slots := (s.heap id).slots.release }).setAdmit c
        .ended).heap id = { s.heap id with slots := (s.heap id).slots.release } :=
      heap_setEntry_self id _
    have hnew : ∀ slots : FairSemaphore ℕ, ((((s.setAdmit c .ended).setEntry id
        { s.heap id with slots := slots }).setAdmit c' (.granted id)).heap id)
          = { s.heap id with slots := slots } := fun slots => heap_setEntry_self id _
    refine hgiven.move (c := c') id (show _ = AdmitPhase.queued id from ?_)
      (fun hno => by cases hno) rfl rfl rfl rfl rfl (fun id' => ?_) ?_ (fun _ => ?_)
      (fun id' hne' => ?_) (fun id' hentry => ?_)
      (fun id' slot hno => by cases hno)
    · rw [admits_setAdmit_of_ne hne]
      exact hwaits
    · by_cases hid' : id' = id
      · subst hid'
        rw [hheap, hnew]
        exact ⟨rfl, fun hno => absurd rfl hno⟩
      · have hleft : (((s.setAdmit c .ended).setEntry id
            { s.heap id with slots := { (s.heap id).slots with queue := rest } }).setAdmit c'
              (.granted id)).heap id' = s.heap id' := heap_setEntry_of_ne hid' _
        have hright : ((s.setEntry id
            { s.heap id with slots := (s.heap id).slots.release }).setAdmit c .ended).heap id'
              = s.heap id' := heap_setEntry_of_ne hid' _
        rw [hleft, hright]
        exact ⟨rfl, fun _ => rfl⟩
    · rw [hheap, hnew]
      show (s.heap id).slots.available + (if decide (id = id) then 1 else 0)
        = (s.heap id).slots.available + 1 + 0
      rw [if_pos (decide_eq_true rfl)]
    · rw [hnew]
      -- the queue without its first waiter
      have hold := hgiven.waiting id hid
      rw [hheap] at hold
      have hgrant : (s.heap id).slots.release.grant c'
          = some { (s.heap id).slots with queue := rest } := by
        rw [FairSemaphore.grant, FairSemaphore.release, hq]
        exact if_pos ⟨rfl, Nat.succ_pos _⟩
      refine hold.grant hgrant ?_ fun k hk => ?_
      · rw [admits_setAdmit_self]
        intro hno
        cases hno
      · rw [admits_setAdmit_of_ne hk]
        rfl
    · refine ⟨decide_eq_false hne'.symm, (fun hno => by cases hno), fun hno => ?_⟩
      cases hno
      exact absurd rfl hne'
    · have hthere := hi.held c' id (by rw [hwaits]; rfl)
      obtain rfl : id = id' := Option.some.inj hentry
      rw [admits_setAdmit_of_ne hne]
      exact hthere

/-- A call that finds a free permit takes it. -/
theorem CapacityInv.acquire (hi : CapacityInv s) {c id : ℕ} (h : (s.admits c).phase = .acquiring id)
    (hpos : 0 < (s.heap id).slots.available) :
    CapacityInv ((s.takeSlot id).setAdmit c (.granted id)) := by
  refine hi.move id h (fun hno => by cases hno) rfl rfl rfl rfl rfl (heap_setSlots id _) ?_
    (fun hid => ?_) (fun id' hne => ?_) (fun id' hentry => ?_) (fun id' slot hno => by cases hno)
  · show ((s.setEntry id _).heap id).slots.available + (if decide (id = id) then 1 else 0) = _ + 0
    rw [heap_setEntry_self, if_pos (decide_eq_true rfl)]
    exact Nat.sub_add_cancel hpos
  · show ((s.setEntry id _).heap id).slots.Waiting _
    rw [heap_setEntry_self]
    refine (hi.waiting id hid).congr rfl fun k => ?_
    by_cases hkc : k = c
    · subst hkc
      rw [admits_setAdmit_self, h]
      exact ⟨(fun hno => by cases hno), (fun hno => by cases hno)⟩
    · rw [admits_setAdmit_of_ne hkc]
      rfl
  · exact ⟨decide_eq_false hne.symm, (fun hno => by cases hno), (fun hno => by cases hno)⟩
  · obtain rfl : id = id' := Option.some.inj hentry
    exact hi.held c id (by rw [h]; rfl)

/-- A call that finds none stands at the end of the queue. -/
theorem CapacityInv.enqueue (hi : CapacityInv s) {c id : ℕ}
    (h : (s.admits c).phase = .acquiring id) :
    CapacityInv ((s.setEntry id
      { s.heap id with slots := (s.heap id).slots.enqueue c }).setAdmit c (.queued id)) := by
  refine hi.move id h (fun hno => by cases hno) rfl rfl rfl rfl rfl (heap_setSlots id _) ?_
    (fun hid => ?_) (fun id' hne => ?_) (fun id' hentry => ?_) (fun id' slot hno => by cases hno)
  · show ((s.setEntry id _).heap id).slots.available + 0 = _ + 0
    rw [heap_setEntry_self]
    rfl
  · show ((s.setEntry id _).heap id).slots.Waiting _
    rw [heap_setEntry_self]
    refine (hi.waiting id hid).enqueue ?_ ?_ fun k hk => ?_
    · rw [h]
      intro hno
      cases hno
    · rw [admits_setAdmit_self]
    · rw [admits_setAdmit_of_ne hk]
      rfl
  · refine ⟨rfl, fun hno => ?_, (fun hno => by cases hno)⟩
    cases hno
    exact absurd rfl hne
  · obtain rfl : id = id' := Option.some.inj hentry
    exact hi.held c id (by rw [h]; rfl)

/-- A call that is dropped leaves the queue. -/
theorem CapacityInv.leave (hi : CapacityInv s) {c id : ℕ} (h : (s.admits c).phase = .queued id) :
    CapacityInv ((s.setEntry id
      { s.heap id with slots := (s.heap id).slots.leave c }).setAdmit c .ended) := by
  refine hi.move id h (fun hno => by cases hno) rfl rfl rfl rfl rfl (heap_setSlots id _) ?_
    (fun hid => ?_) (fun id' hne => ?_) (fun id' hno => by cases hno)
    (fun id' slot hno => by cases hno)
  · show ((s.setEntry id _).heap id).slots.available + 0 = _ + 0
    rw [heap_setEntry_self]
    rfl
  · show ((s.setEntry id _).heap id).slots.Waiting _
    rw [heap_setEntry_self]
    refine (hi.waiting id hid).leave ?_ fun k hk => ?_
    · rw [admits_setAdmit_self]
      intro hno
      cases hno
    · rw [admits_setAdmit_of_ne hk]
      rfl
  · refine ⟨rfl, (fun hno => by cases hno), fun hno => ?_⟩
    cases hno
    exact absurd rfl hne

/-- A new call for the key. -/
theorem CapacityInv.admitCall (hi : CapacityInv s) (key : String) :
    CapacityInv { s with
      admits := Function.update s.admits s.admitCount ⟨key, .lookingUp⟩
      admitCount := s.admitCount + 1 } := by
  have hnone := hi.unused s.admitCount le_rfl
  have hother : ∀ {k : ℕ}, k ≠ s.admitCount →
      Function.update s.admits s.admitCount ⟨key, .lookingUp⟩ k = s.admits k :=
    fun hk => Function.update_of_ne hk ..
  have hnew : ∀ {k : ℕ} {ph : AdmitPhase},
      (Function.update s.admits s.admitCount ⟨key, .lookingUp⟩ k).phase = ph → ph ≠ .lookingUp →
      Function.update s.admits s.admitCount ⟨key, .lookingUp⟩ k = s.admits k := by
    intro k ph hk hne
    by_cases heq : k = s.admitCount
    · subst heq
      rw [Function.update_self] at hk
      exact absurd hk.symm hne
    · exact hother heq
  refine ⟨hi.map.of_eq rfl rfl, fun c hc => ?_, fun c id hc => ?_, hi.capacity, fun id hid => ?_,
    fun id hid => ?_, fun c id slot hc => ?_, hi.positive⟩
  · show (Function.update s.admits s.admitCount _ c).phase = _
    rw [hother (Nat.ne_of_gt hc)]
    exact hi.unused c (Nat.le_of_succ_le hc)
  · have hc' : (Function.update s.admits s.admitCount ⟨key, .lookingUp⟩ c).phase.entry = some id := hc
    have hsame := hnew (k := c) rfl fun hno => by rw [hno] at hc'; cases hc'
    rw [hsame] at hc'
    show ((Function.update s.admits s.admitCount ⟨key, .lookingUp⟩ c).key, id) ∈ s.entries
    rw [hsame]
    exact hi.held c id hc'
  · show (s.heap id).slots.available + tally (s.admitCount + 1) _
      (Function.update s.admits s.admitCount _) = _
    rw [tally_succ]
    exact hi.slots id hid
  · refine (hi.waiting id hid).congr rfl fun k => ?_
    show (Function.update s.admits s.admitCount _ k).phase = _ ↔ _
    by_cases heq : k = s.admitCount
    · subst heq
      rw [Function.update_self, hnone]
      exact ⟨(fun hno => by cases hno), (fun hno => by cases hno)⟩
    · rw [hother heq]
  · have hc' : (Function.update s.admits s.admitCount ⟨key, .lookingUp⟩ c).phase = .holding id slot :=
      hc
    rw [hnew hc' (fun hno => by cases hno)] at hc'
    exact hi.slotted c id slot hc'

/-- A call of `admit` moves on with the entry it has. -/
theorem CapacityInv.goOn (hi : CapacityInv s) {c id : ℕ} {old ph : AdmitPhase}
    (hold : (s.admits c).phase = old) (hne : old ≠ .unused)
    (hslot : ∀ id', ph.hasSlot id' = old.hasSlot id') (hqueued : ∀ id', ph ≠ .queued id')
    (hqueued' : ∀ id', old ≠ .queued id') (hentry : old.entry = some id)
    (hentry' : ph.entry = some id ∨ ph.entry = none)
    (hslotted : ∀ id' slot, ph = .holding id' slot → slot = true) : CapacityInv (s.setAdmit c ph) := by
  refine hi.move_same hold hne rfl rfl rfl rfl rfl (fun _ => ⟨rfl, rfl⟩) hslot hqueued hqueued'
    (fun id' hph => ?_) hslotted
  rcases hentry' with h | h <;> rw [h] at hph <;> cases hph
  exact hi.held c id (by rw [hold]; exact hentry)

theorem CapacityInv.returnPermit (hi : CapacityInv s) {c id : ℕ}
    (h : (s.admits c).phase = .granted id) : CapacityInv (s.returnPermit c id true) := by
  refine hi.move_same h (fun hno => by cases hno) rfl rfl rfl rfl rfl
    (heap_setEntry_same rfl rfl) (fun id' => ?_) (fun _ hno => by cases hno)
    (fun _ hno => by cases hno) (fun id' hentry => ?_) (fun id' slot hph => ?_)
  · exact Bool.and_true _
  · obtain rfl : id = id' := Option.some.inj hentry
    exact hi.held c id (by rw [h]; rfl)
  · cases hph
    rfl

/-- **The invariant is kept** when no entry is evicted that is in use. -/
theorem CapacityInv.step (hi : CapacityInv s) {e : OriginEvent} (hok : s.EvictSafe e)
    (hs : s.step e = some s') : CapacityInv s' := by
  have hstep := originStep_of_step hs
  have hthere := hi.still_there hok hstep
  have hm := hstep.mapInv hi.map
  clear hs
  cases hstep with
  | admitCall key => exact hi.admitCall key
  | @found c id h hl =>
    refine hi.move_same h (fun hno => by cases hno) rfl rfl rfl rfl rfl (heap_setEntry_same rfl rfl)
      (fun _ => rfl) (fun _ hno => by cases hno) (fun _ hno => by cases hno) (fun id' hentry => ?_)
      (fun _ _ hno => by cases hno)
    obtain rfl : id = id' := Option.some.inj hentry
    exact mem_of_lookup hl
  | @made c victims map h hl hv =>
    have hmade : CapacityInv (s.create (s.admits c).key map) := hi.create hl hv hthere
    refine hmade.move_same h (fun hno => by cases hno) rfl rfl rfl rfl rfl (fun _ => ⟨rfl, rfl⟩)
      (fun _ => rfl) (fun _ hno => by cases hno) (fun _ hno => by cases hno) (fun id' hentry => ?_)
      (fun _ _ hno => by cases hno)
    obtain rfl : s.created = id' := Option.some.inj hentry
    exact List.mem_append_right _ (List.mem_singleton.mpr rfl)
  | skip h hd =>
    rw [hok.1] at hd
    cases hd
  | load h =>
    exact hi.goOn h (fun hno => by cases hno) (fun _ => rfl) (fun _ hno => by cases hno)
      (fun _ hno => by cases hno) rfl (.inl rfl) (fun _ _ hno => by cases hno)
  | sleep h =>
    exact hi.goOn h (fun hno => by cases hno) (fun _ => rfl) (fun _ hno => by cases hno)
      (fun _ hno => by cases hno) rfl (.inl rfl) (fun _ _ hno => by cases hno)
  | pass h hle =>
    exact hi.goOn h (fun hno => by cases hno) (fun _ => rfl) (fun _ hno => by cases hno)
      (fun _ hno => by cases hno) rfl (.inl rfl) (fun _ _ hno => by cases hno)
  | acquire h hpos => exact hi.acquire h hpos
  | enqueue h => exact hi.enqueue h
  | give h => exact hi.returnPermit h
  | wake h =>
    exact hi.goOn h (fun hno => by cases hno) (fun _ => rfl) (fun _ hno => by cases hno)
      (fun _ hno => by cases hno) rfl (.inl rfl) (fun _ _ hno => by cases hno)
  | cancelEarly h =>
    rcases h with h | h <;>
      exact hi.goOn h (fun hno => by cases hno) (fun _ => rfl) (fun _ hno => by cases hno)
        (fun _ hno => by cases hno) rfl (.inr rfl) (fun _ _ hno => by cases hno)
  | cancelQueued h => exact hi.leave h
  | release he h => exact hi.release h
  | dropUnslotted h =>
    have hslot := hi.slotted _ _ _ h
    cases hslot
  | reportFound h hl => exact hi.frame hm rfl rfl rfl rfl (heap_setEntry_same rfl rfl) hthere
  | @reportMade r victims map h hl hv =>
    have hmade : CapacityInv (s.create (s.reports r).key map) := hi.create hl hv hthere
    exact hmade.frame hm rfl rfl rfl rfl (fun _ => ⟨rfl, rfl⟩) hmade.held
  | count h hph hslots hcapacity hbackoff =>
    exact hi.frame hm rfl rfl rfl rfl (heap_setEntry_same hslots hcapacity) hthere
  | extend h hlt hsame => exact hi.frame hm rfl rfl rfl rfl (heap_setEntry_same rfl rfl) hthere
  | touchReport h => exact hi.frame hm rfl rfl rfl rfl (heap_setEntry_same rfl rfl) hthere
  | _ => exact hi.frame hm rfl rfl rfl rfl (fun _ => ⟨rfl, rfl⟩) hthere

/-- All permits of a key come from one entry. -/
theorem CapacityInv.alive_le (hi : CapacityInv s) (key : String) :
    s.alive key ≤ s.capacityPerOrigin := by
  by_cases hnone : s.alive key = 0
  · rw [hnone]
    exact Nat.zero_le _
  · obtain ⟨c, -, hc⟩ := exists_of_tally_pos (Nat.pos_of_ne_zero hnone)
    have hkey : (s.admits c).key = key ∧ (s.admits c).phase.isAlive = true := by
      by_contra hno
      rw [if_neg hno] at hc
      exact absurd hc (lt_irrefl 0)
    -- the entry of one permit is the entry of all of them
    have hholds : ∀ {k : ℕ}, (s.admits k).phase.isAlive = true →
        ∃ id, (s.admits k).phase = .holding id true := by
      intro k hk
      rcases hph : (s.admits k).phase with - | - | _ | _ | _ | _ | _ | _ | ⟨id, slot⟩ | - <;>
        rw [hph] at hk <;> cases hk
      exact ⟨id, by rw [hi.slotted k id slot hph]⟩
    obtain ⟨id, hid⟩ := hholds hkey.2
    have hmem := hi.held c id (by rw [hid]; rfl)
    have hle : s.alive key ≤ s.slotsHeld id := by
      refine tally_le fun k _ => ?_
      by_cases halive : (s.admits k).key = key ∧ (s.admits k).phase.isAlive = true
      · obtain ⟨id', hid'⟩ := hholds halive.2
        have hmem' := hi.held k id' (by rw [hid']; rfl)
        have hsame := eq_of_key hi.map.keys hmem hmem' (hkey.1.trans halive.1.symm)
        obtain rfl : id = id' := congrArg Prod.snd hsame
        rw [if_pos halive, hid', if_pos (by simp [AdmitPhase.hasSlot])]
      · rw [if_neg halive]
        exact Nat.zero_le _
    have hslots := hi.slots id (hi.map.lt _ hmem)
    omega

/-- **Permits stay within the capacity.**  In a registry that coordinates,
while no entry is evicted that an admission has looked up and not returned
from, no more permits of a key are alive than the capacity of an origin. -/
theorem permits_within_capacity {n m k : ℕ} {d : Bool}
    (h : Reach step EvictSafe (· = new n m k d) s) (key : String) :
    s.alive key ≤ s.capacityPerOrigin := by
  have hi : CapacityInv s :=
    h.invariant (fun _ hnew => hnew ▸ .new n m k d) fun _ _ _ hi hok hs => hi.step hok hs
  exact hi.alive_le key

/-- One admission gets its permit, and another one for the same key waits. -/
def contendedRun : List OriginEvent :=
  [OriginEvent.admitCall "a", .admitCall "a", .admitLookup 0 [], .admitLookup 1 []] ++
    List.replicate 4 (OriginEvent.admitNext 0) ++ List.replicate 3 (OriginEvent.admitNext 1)

/-- The second request waits while the first one holds the permit. -/
theorem permits_within_capacity_contendedRun :
    ∃ s, runEvents step (new 1 1 0 false) contendedRun = some s ∧ s.capacityPerOrigin = 1 ∧
      (s.admits 0).phase = .holding 0 true ∧ (s.admits 1).phase = .queued 0 ∧ s.alive "a" ≤ 1 := by
  have hok : runOk step EvictSafe (new 1 1 0 false) contendedRun := by decide +kernel
  have hrun : ∃ s ∈ runEvents step (new 1 1 0 false) contendedRun, s.capacityPerOrigin = 1 ∧
      (s.admits 0).phase = .holding 0 true ∧ (s.admits 1).phase = .queued 0 := by decide +kernel
  obtain ⟨s, hs, hcap, hfirst, hsecond⟩ := hrun
  refine ⟨s, hs, hcap, hfirst, hsecond, ?_⟩
  rw [← hcap]
  exact permits_within_capacity (.of_run (.start rfl) hok hs) "a"

/-- An admission has looked its entry up when the entry is evicted for another
key; the next admission for its key gets a new one. -/
def evictedRun : List OriginEvent :=
  [OriginEvent.tick 1000000, .admitCall "a", .admitLookup 0 [], .admitCall "b",
    .admitLookup 1 ["a"], .admitCall "a", .admitLookup 2 ["b"]] ++
    List.replicate 4 (OriginEvent.admitNext 0) ++ List.replicate 4 (OriginEvent.admitNext 2)

/-- **An origin that is evicted while it is used gets a second set of permits.** -/
theorem evicted_entry_doubles_capacity :
    ∃ s, runEvents step (new 1 1 300000 false) evictedRun = some s ∧ s.capacityPerOrigin = 1 ∧
      s.alive "a" = 2 := by
  have hrun : ∃ s ∈ runEvents step (new 1 1 300000 false) evictedRun, s.capacityPerOrigin = 1 ∧
      s.alive "a" = 2 := by decide +kernel
  exact hrun

end OriginRegistry

end KDown
