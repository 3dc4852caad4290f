/-
KDown/CoordinatedRuns.lean

The coordinating store over whole runs (resume/coordinated_store.rs).

The state is what the inner store holds and what the coordinator remembers;
a call is a save, a load or a deletion together with the inner store's answer.
The inner store either performs a forwarded operation or fails and leaves its
entry alone.

Beside the run stands its history: for each identity the saves accepted since
its last successful deletion.  `Tracks` ties the two together; every call
keeps it (`Tracks.perform`), and it says that the stored ranges are the
normalized union of the history and that the history is of one generation.
-/
import KDown.CoordinatedStore
import KDown.IntervalSet

namespace KDown

open IntervalSet (NormalRanges InRanges)

/-! ### The union is normalized -/

instance : IsTrans ByteRange rangeLe where
  trans := by
    intro a b c h₁ h₂
    simp only [rangeLe] at h₁ h₂ ⊢
    omega

instance : Std.Total rangeLe where
  total := by
    intro a b
    simp only [rangeLe]
    omega

/-- Ranges kept last first: their reverse is normal. -/
structure Merged (acc : List ByteRange) : Prop where
  apart : acc.Pairwise fun a b => b.2 + 1 < a.1
  ordered : ∀ r ∈ acc, r.1 ≤ r.2

/-- Merging a range that starts no earlier than the last one adds its bytes. -/
theorem Merged.mergeRange {acc : List ByteRange} {r : ByteRange} (h : Merged acc)
    (hr : r.1 ≤ r.2) (hlast : ∀ a ∈ acc, a.1 ≤ r.1) :
    Merged (mergeRange acc r) ∧ (∀ a ∈ mergeRange acc r, a.1 ≤ r.1) ∧
      ∀ b, InRanges (mergeRange acc r) b ↔ InRanges acc b ∨ r.1 ≤ b ∧ b ≤ r.2 := by
  obtain ⟨start, stop⟩ := r
  rcases acc with - | ⟨⟨ps, pe⟩, acc⟩
  · refine ⟨⟨List.pairwise_singleton _ _, fun r hr' => ?_⟩, fun a ha => ?_, fun b => ?_⟩
    · rw [List.mem_singleton.mp hr']
      exact hr
    · rw [List.mem_singleton.mp ha]
    · simp [KDown.mergeRange, InRanges]
  obtain ⟨hhead, htail⟩ := List.pairwise_cons.mp h.apart
  have hp := h.ordered _ (List.mem_cons_self ..)
  have hps := hlast _ (List.mem_cons_self ..)
  simp only at hr hp hps
  simp only [KDown.mergeRange]
  split_ifs with htouch
  · -- the last range grows to the right
    refine ⟨⟨List.pairwise_cons.mpr ⟨hhead, htail⟩, ?_⟩, ?_, fun b => ?_⟩
    · intro r hmem
      rcases List.mem_cons.mp hmem with rfl | hmem
      · simp only
        omega
      · exact h.ordered r (List.mem_cons_of_mem _ hmem)
    · intro a hmem
      rcases List.mem_cons.mp hmem with rfl | hmem
      · exact hps
      · exact hlast a (List.mem_cons_of_mem _ hmem)
    · simp only [InRanges, List.exists_mem_cons_iff]
      rw [or_right_comm]
      exact or_congr_left (by omega)
  · refine ⟨⟨List.pairwise_cons.mpr ⟨?_, h.apart⟩, ?_⟩, ?_, fun b => ?_⟩
    · intro a hmem
      rcases List.mem_cons.mp hmem with rfl | hmem
      · simp only
        omega
      · have := hhead a hmem
        simp only at this ⊢
        omega
    · intro r hmem
      rcases List.mem_cons.mp hmem with rfl | hmem
      · exact hr
      · exact h.ordered r hmem
    · intro a hmem
      rcases List.mem_cons.mp hmem with rfl | hmem
      · exact le_rfl
      · exact hlast a hmem
    · simp only [InRanges, List.exists_mem_cons_iff]
      exact or_comm

/-- **Merging sorted ranges** covers what they covered, and leaves no two that
touch. -/
theorem Merged.foldl {l acc : List ByteRange} (hacc : Merged acc)
    (hsorted : l.Pairwise rangeLe) (hord : ∀ r ∈ l, r.1 ≤ r.2)
    (hlast : ∀ a ∈ acc, ∀ r ∈ l, a.1 ≤ r.1) :
    Merged (l.foldl KDown.mergeRange acc) ∧
      ∀ b, InRanges (l.foldl KDown.mergeRange acc) b ↔ InRanges acc b ∨ InRanges l b := by
  induction l generalizing acc with
  | nil => exact ⟨hacc, fun b => by simp [InRanges]⟩
  | cons r l ih =>
    obtain ⟨hfirst, hrest⟩ := List.pairwise_cons.mp hsorted
    obtain ⟨hm, hle, hin⟩ := hacc.mergeRange (hord r (List.mem_cons_self ..))
      fun a ha => hlast a ha r (List.mem_cons_self ..)
    -- later ranges start no earlier than this one
    have hlast' : ∀ a ∈ KDown.mergeRange acc r, ∀ r' ∈ l, a.1 ≤ r'.1 := by
      intro a ha r' hr'
      have h₁ := hle a ha
      have h₂ := hfirst r' hr'
      simp only [rangeLe] at h₂
      omega
    obtain ⟨hm', hin'⟩ := ih hm hrest (fun r' hr' => hord r' (List.mem_cons_of_mem _ hr')) hlast'
    refine ⟨hm', fun b => ?_⟩
    rw [List.foldl_cons, hin', hin]
    simp only [InRanges, List.exists_mem_cons_iff]
    exact or_assoc

/-- The union of two lists of non-empty ranges is normal and covers the bytes
of both. -/
theorem unionRanges_spec {a b : List ByteRange} (ha : ∀ r ∈ a, r.1 ≤ r.2)
    (hb : ∀ r ∈ b, r.1 ≤ r.2) :
    NormalRanges (unionRanges a b) ∧
      ∀ x, InRanges (unionRanges a b) x ↔ InRanges a x ∨ InRanges b x := by
  have hord : ∀ r ∈ (a ++ b).insertionSort rangeLe, r.1 ≤ r.2 := by
    intro r hr
    rcases List.mem_append.mp ((List.mem_insertionSort rangeLe).mp hr) with hr | hr
    · exact ha r hr
    · exact hb r hr
  have hnil : Merged [] := ⟨List.Pairwise.nil, fun r hr => by cases hr⟩
  obtain ⟨hm, hin⟩ := hnil.foldl
    (List.pairwise_insertionSort rangeLe (a ++ b)) hord fun a ha => by cases ha
  refine ⟨⟨List.pairwise_reverse.mpr hm.apart, fun r hr => ?_⟩, fun x => ?_⟩
  · exact hm.ordered r (List.mem_reverse.mp hr)
  · have hrev : InRanges (unionRanges a b) x ↔
        InRanges (((a ++ b).insertionSort rangeLe).foldl mergeRange []) x := by
      simp only [InRanges, unionRanges, List.mem_reverse]
    rw [hrev, hin]
    simp only [InRanges, List.not_mem_nil, false_and, exists_false, false_or,
      List.mem_insertionSort, List.mem_append, or_and_right, exists_or]

/-! ### Calls -/

/-- A call of the store, with the inner store's answer to what is forwarded. -/
inductive StoreCall
  | save (checkpoint : Checkpoint) (inner : Except CheckpointError Unit)
  | load (jobId : String) (inner : Except CheckpointError Unit)
  | delete (jobId : String) (inner : Except CheckpointError Unit)

/-- Saves pass normal ranges. -/
def StoreCall.Canonical : StoreCall → Prop
  | .save checkpoint _ => NormalRanges checkpoint.completedRanges
  | .load _ _ => True
  | .delete _ _ => True

/-- The inner store's entries and the checkpoints the coordinator remembers. -/
structure CoordinatedStore where
  stored : SortedMap String Checkpoint
  accepted : Accepted

namespace CoordinatedStore

/-- A store without entries. -/
def new : CoordinatedStore := ⟨.empty, .empty⟩

/-- The inner store saves or leaves its entry as it is. -/
def innerSave (stored : SortedMap String Checkpoint)
    (forwarded : Except CheckpointError (Option Checkpoint))
    (inner : Except CheckpointError Unit) : SortedMap String Checkpoint :=
  match forwarded, inner with
  | .ok (some cp), .ok () => stored.insert cp.jobId cp
  | _, _ => stored

/-- The inner store deletes or leaves its entry as it is. -/
def innerDelete (stored : SortedMap String Checkpoint) (jobId : String)
    (inner : Except CheckpointError Unit) : SortedMap String Checkpoint :=
  match inner with
  | .ok () => stored.erase jobId
  | .error _ => stored

/-- Perform a call; a load answers what is stored. -/
def perform (s : CoordinatedStore) :
    StoreCall → Except CheckpointError (Option Checkpoint) × CoordinatedStore
  | .save cp inner =>
      let r := saveAtomic s.accepted cp inner
      (r.1.map fun _ => none,
        { stored := innerSave s.stored (forwardedBy s.accepted cp) inner, accepted := r.2 })
  | .load jobId inner => (inner.map fun _ => s.stored.get? jobId, s)
  | .delete jobId inner =>
      let r := deleteCheckpoint s.accepted jobId inner
      (r.1.map fun _ => none, { stored := innerDelete s.stored jobId inner, accepted := r.2 })

/-- For each identity the saves accepted since its last successful deletion,
oldest first. -/
abbrev History := String → List Checkpoint

/-- What an answered call adds to the history. -/
def record (h : History) : StoreCall → Except CheckpointError (Option Checkpoint) → History
  | .save cp _, .ok _ => fun id => if id = cp.jobId then h id ++ [cp] else h id
  | .delete jobId _, .ok _ => fun id => if id = jobId then [] else h id
  | _, _ => h

/-- Perform a list of calls, keeping the history. -/
def runCalls (s : CoordinatedStore) (h : History) : List StoreCall → CoordinatedStore × History
  | [] => (s, h)
  | c :: calls => runCalls (s.perform c).2 (record h c (s.perform c).1) calls

/-- The four outcomes of a save. -/
theorem forwardedBy_outcome (accepted : Accepted) (cp : Checkpoint) :
    forwardedBy accepted cp = .error (generationChanged cp.jobId) ∨
    (∃ prev, accepted.get? cp.jobId = some prev ∧ prev.validators = cp.validators ∧
      prev.totalSize = cp.totalSize ∧
      unionRanges prev.completedRanges cp.completedRanges = prev.completedRanges ∧
      forwardedBy accepted cp = .ok none) ∨
    (accepted.get? cp.jobId = none ∧ forwardedBy accepted cp = .ok (some cp)) ∨
    ∃ prev, accepted.get? cp.jobId = some prev ∧ prev.validators = cp.validators ∧
      prev.totalSize = cp.totalSize ∧
      forwardedBy accepted cp = .ok (some { cp with
        completedRanges := unionRanges prev.completedRanges cp.completedRanges }) := by
  unfold forwardedBy
  rcases e : accepted.get? cp.jobId with - | prev
  · exact .inr (.inr (.inl ⟨rfl, rfl⟩))
  simp only
  split_ifs with hgen hsame
  · exact .inl rfl
  · simp only [not_or, not_not] at hgen
    exact .inr (.inl ⟨prev, rfl, hgen.1, hgen.2, hsame, rfl⟩)
  · simp only [not_or, not_not] at hgen
    exact .inr (.inr (.inr ⟨prev, rfl, hgen.1, hgen.2, rfl⟩))

/-- **A call that fails changes nothing**: neither the stored entries nor what
is remembered. -/
theorem perform_error {s : CoordinatedStore} {c : StoreCall} {e : CheckpointError}
    (h : (s.perform c).1 = .error e) : (s.perform c).2 = s := by
  cases c with
  | load jobId inner => rfl
  | delete jobId inner =>
    rcases inner with err | ⟨⟩
    · rfl
    · cases h
  | save cp inner =>
    simp only [perform, saveAtomic] at h ⊢
    rcases hf : forwardedBy s.accepted cp with err | - | forwarded <;> rw [hf] at h
    · rfl
    · cases h
    · rcases inner with err | ⟨⟩
      · rfl
      · cases h

/-! ### What the history says -/

/-- An entry and the remembered checkpoint are the union of the saves of one
generation. -/
structure TracksAt (stored remembered : Option Checkpoint) (saves : List Checkpoint) : Prop where
  same : stored = remembered
  empty : remembered = none ↔ saves = []
  normal : ∀ cp ∈ remembered, NormalRanges cp.completedRanges
  union : ∀ cp ∈ remembered, ∀ b, InRanges cp.completedRanges b ↔
    ∃ save ∈ saves, InRanges save.completedRanges b
  generation : ∀ cp ∈ remembered, ∀ save ∈ saves,
    save.validators = cp.validators ∧ save.totalSize = cp.totalSize

/-- The state and the history agree on every identity. -/
def Tracks (s : CoordinatedStore) (h : History) : Prop :=
  ∀ id, TracksAt (s.stored.get? id) (s.accepted.get? id) (h id)

theorem tracksAt_none : TracksAt none none [] where
  same := rfl
  empty := by simp
  normal := by intro cp hcp; cases hcp
  union := by intro cp hcp; cases hcp
  generation := by intro cp hcp; cases hcp

theorem tracks_new : Tracks new fun _ => [] := fun _ => tracksAt_none

/-- The first save of an identity is the whole union. -/
theorem tracksAt_first {cp : Checkpoint} (hcp : NormalRanges cp.completedRanges) :
    TracksAt (some cp) (some cp) [cp] := by
  refine ⟨rfl, by simp, ?_, ?_, ?_⟩
  · rintro _ ⟨⟩
    exact hcp
  · rintro _ ⟨⟩ b
    simp
  · rintro _ ⟨⟩ save hsave
    rw [List.mem_singleton.mp hsave]
    exact ⟨rfl, rfl⟩

/-- A later save of the same generation joins the union, whichever checkpoint
carries it. -/
theorem TracksAt.join {stored : Option Checkpoint} {prev cp : Checkpoint}
    {saves : List Checkpoint} (h : TracksAt stored (some prev) saves) (new : Checkpoint)
    (hcp : NormalRanges cp.completedRanges)
    (hranges : new.completedRanges = unionRanges prev.completedRanges cp.completedRanges)
    (hnew : new.validators = prev.validators ∧ new.totalSize = prev.totalSize)
    (hgen : cp.validators = prev.validators ∧ cp.totalSize = prev.totalSize) :
    TracksAt (some new) (some new) (saves ++ [cp]) := by
  obtain ⟨hnormal, hin⟩ := unionRanges_spec (h.normal prev rfl).ordered hcp.ordered
  refine ⟨rfl, by simp, ?_, ?_, ?_⟩
  · rintro _ ⟨⟩
    rw [hranges]
    exact hnormal
  · rintro _ ⟨⟩ b
    rw [hranges, hin, h.union prev rfl b]
    simp [or_and_right, exists_or]
  · rintro _ ⟨⟩ save hsave
    rw [hnew.1, hnew.2]
    rcases List.mem_append.mp hsave with hsave | hsave
    · exact h.generation prev rfl save hsave
    · rw [List.mem_singleton.mp hsave]
      exact hgen

/-- **Every call keeps the agreement.** -/
theorem Tracks.perform {s : CoordinatedStore} {h : History} (ht : Tracks s h) {c : StoreCall}
    (hc : c.Canonical) : Tracks (s.perform c).2 (record h c (s.perform c).1) := by
  cases c with
  | load jobId inner => exact ht
  | delete jobId inner =>
    rcases inner with err | ⟨⟩
    · exact ht
    · intro id
      by_cases hid : id = jobId
      · subst hid
        simpa [CoordinatedStore.perform, deleteCheckpoint, innerDelete, record, Except.map]
          using tracksAt_none
      · simpa [CoordinatedStore.perform, deleteCheckpoint, innerDelete, record, hid,
          Except.map, SortedMap.get?_erase_of_ne _ hid] using ht id
  | save cp inner =>
    rcases forwardedBy_outcome s.accepted cp with hf | ⟨prev, hget, hv, hs, hsame, hf⟩ |
      ⟨hnone, hf⟩ | ⟨prev, hget, hv, hs, hf⟩
    · -- refused: nothing changes
      simpa [CoordinatedStore.perform, saveAtomic, hf, innerSave, record, Except.map] using ht
    · -- suppressed: accepted, and already in the union
      intro id
      by_cases hid : id = cp.jobId
      · subst hid
        have hat := ht cp.jobId
        have hjoin := (hget ▸ hat).join _ hc hsame.symm ⟨rfl, rfl⟩ ⟨hv.symm, hs.symm⟩
        have hstored := hat.same.trans hget
        simpa [CoordinatedStore.perform, saveAtomic, hf, innerSave, record, Except.map, hget,
          hstored] using hjoin
      · simpa [CoordinatedStore.perform, saveAtomic, hf, innerSave, record, Except.map, hid]
          using ht id
    all_goals rcases inner with err | ⟨⟩
    · simpa [CoordinatedStore.perform, saveAtomic, hf, innerSave, record, Except.map] using ht
    · intro id
      by_cases hid : id = cp.jobId
      · subst hid
        have hempty := (ht cp.jobId).empty.mp hnone
        simpa [CoordinatedStore.perform, saveAtomic, hf, innerSave, record, Except.map, hempty]
          using tracksAt_first hc
      · simpa [CoordinatedStore.perform, saveAtomic, hf, innerSave, record, Except.map, hid,
          SortedMap.get?_insert_of_ne _ _ hid] using ht id
    · simpa [CoordinatedStore.perform, saveAtomic, hf, innerSave, record, Except.map] using ht
    · intro id
      by_cases hid : id = cp.jobId
      · subst hid
        have hjoin := (hget ▸ ht cp.jobId).join
          { cp with completedRanges := unionRanges prev.completedRanges cp.completedRanges }
          hc rfl ⟨hv.symm, hs.symm⟩ ⟨hv.symm, hs.symm⟩
        simpa [CoordinatedStore.perform, saveAtomic, hf, innerSave, record, Except.map]
          using hjoin
      · simpa [CoordinatedStore.perform, saveAtomic, hf, innerSave, record, Except.map, hid,
          SortedMap.get?_insert_of_ne _ _ hid] using ht id

theorem Tracks.runCalls {s : CoordinatedStore} {h : History} (ht : Tracks s h)
    {calls : List StoreCall} (hcalls : ∀ c ∈ calls, c.Canonical) :
    Tracks (runCalls s h calls).1 (runCalls s h calls).2 := by
  induction calls generalizing s h with
  | nil => exact ht
  | cons c calls ih =>
    exact ih (ht.perform (hcalls c (List.mem_cons_self ..)))
      fun c' hc' => hcalls c' (List.mem_cons_of_mem _ hc')

/-- Without a successful deletion the history of an identity only grows. -/
theorem mem_record {s : CoordinatedStore} {h : History} {c : StoreCall} {id : String}
    (hc : c ≠ .delete id (.ok ())) {save : Checkpoint} (hsave : save ∈ h id) :
    save ∈ record h c (s.perform c).1 id := by
  cases c with
  | load jobId inner => exact hsave
  | delete jobId inner =>
    rcases inner with err | ⟨⟩
    · exact hsave
    · have hid : id ≠ jobId := fun heq => hc (by rw [heq])
      simpa [CoordinatedStore.perform, deleteCheckpoint, record, Except.map, hid] using hsave
  | save cp inner =>
    rcases hans : (s.perform (.save cp inner)).1 with err | answer
    · exact hsave
    · simp only [record]
      split_ifs
      · exact List.mem_append_left _ hsave
      · exact hsave

theorem mem_runCalls_history {s : CoordinatedStore} {h : History} {calls : List StoreCall}
    {id : String} (hcalls : ∀ c ∈ calls, c ≠ .delete id (.ok ())) {save : Checkpoint}
    (hsave : save ∈ h id) : save ∈ (CoordinatedStore.runCalls s h calls).2 id := by
  induction calls generalizing s h with
  | nil => exact hsave
  | cons c calls ih =>
    exact ih (fun c' hc' => hcalls c' (List.mem_cons_of_mem _ hc'))
      (mem_record (hcalls c (List.mem_cons_self ..)) hsave)

/-- The byte is in the ranges stored for the identity. -/
def Covers (s : CoordinatedStore) (id : String) (b : ℕ) : Prop :=
  ∃ cp, s.stored.get? id = some cp ∧ InRanges cp.completedRanges b

/-- What the store covers is what the saves of the history cover. -/
theorem Tracks.covers_iff {s : CoordinatedStore} {h : History} (ht : Tracks s h) {id : String}
    {b : ℕ} : s.Covers id b ↔ ∃ save ∈ h id, InRanges save.completedRanges b := by
  constructor
  · rintro ⟨cp, hget, hb⟩
    exact ((ht id).union cp ((ht id).same.symm.trans hget) b).mp hb
  · rintro ⟨save, hsave, hb⟩
    rcases e : s.accepted.get? id with - | cp
    · rw [(ht id).empty.mp e] at hsave
      cases hsave
    · exact ⟨cp, (ht id).same.trans e, ((ht id).union cp e b).mpr ⟨save, hsave, hb⟩⟩

/-- The stored ranges are the normalized union of the history. -/
theorem Tracks.ranges_eq {s : CoordinatedStore} {h : History} (ht : Tracks s h) (id : String) :
    (s.stored.get? id).map Checkpoint.completedRanges =
      if h id = [] then none
      else some (IntervalSet.fromRanges ((h id).flatMap Checkpoint.completedRanges)).ranges := by
  have hat := ht id
  rw [hat.same]
  rcases e : s.accepted.get? id with - | cp <;> rw [e] at hat
  · rw [if_pos (hat.empty.mp rfl)]
    rfl
  · have hne : h id ≠ [] := fun hnil => by cases hat.empty.mpr hnil
    rw [if_neg hne, Option.map_some, Option.some.injEq]
    refine (hat.normal cp rfl).eq_of_inRanges (IntervalSet.normalRanges_ranges _) fun b => ?_
    rw [hat.union cp rfl b, InRanges, ← IntervalSet.mem_iff_ranges, IntervalSet.mem_fromRanges]
    simp only [InRanges, List.mem_flatMap]
    constructor
    · rintro ⟨save, hsave, r, hr, hb⟩
      exact ⟨r, ⟨save, hsave, hr⟩, hb⟩
    · rintro ⟨r, ⟨save, hsave, hr⟩, hb⟩
      exact ⟨save, hsave, r, hr, hb⟩

/-- **Coordinated saves are monotone.**  After every sequence of calls with
normal ranges on an empty store, for each identity: the stored ranges are the
normalized union of the saves accepted since its last successful deletion;
these agree on validators and total size; the entry is the remembered
checkpoint; a call that fails leaves both as they were; and until the next
successful deletion no covered byte is lost. -/
theorem coordinated_saves_monotone (calls : List StoreCall) (hcalls : ∀ c ∈ calls, c.Canonical) :
    let r := runCalls new (fun _ => []) calls
    (∀ id, (r.1.stored.get? id).map Checkpoint.completedRanges =
      if r.2 id = [] then none
      else some (IntervalSet.fromRanges ((r.2 id).flatMap Checkpoint.completedRanges)).ranges) ∧
    (∀ id, ∀ a ∈ r.2 id, ∀ b ∈ r.2 id,
      a.validators = b.validators ∧ a.totalSize = b.totalSize) ∧
    (∀ id, r.1.stored.get? id = r.1.accepted.get? id) ∧
    (∀ c e, (r.1.perform c).1 = .error e → (r.1.perform c).2 = r.1) ∧
    (∀ more id, (∀ c ∈ more, c.Canonical) → (∀ c ∈ more, c ≠ .delete id (.ok ())) →
      ∀ b, r.1.Covers id b → (runCalls r.1 r.2 more).1.Covers id b) := by
  intro r
  have ht : Tracks r.1 r.2 := tracks_new.runCalls hcalls
  refine ⟨ht.ranges_eq, fun id a ha b hb => ?_, fun id => (ht id).same,
    fun c e => perform_error, fun more id hmore hkeep b hb => ?_⟩
  · rcases e : r.1.accepted.get? id with - | cp
    · rw [(ht id).empty.mp e] at ha
      cases ha
    · have h₁ := (ht id).generation cp e a ha
      have h₂ := (ht id).generation cp e b hb
      exact ⟨h₁.1.trans h₂.1.symm, h₁.2.trans h₂.2.symm⟩
  · obtain ⟨save, hsave, hin⟩ := ht.covers_iff.mp hb
    exact (ht.runCalls hmore).covers_iff.mpr ⟨save, mem_runCalls_history hkeep hsave, hin⟩

/-- Two saves, one that the inner store fails, and one of another generation. -/
def sampleCalls : List StoreCall :=
  [.save (sampleSave [(0, 1)]).checkpoint (.ok ()),
    .save (sampleSave [(4, 5)]).checkpoint (.error (.corrupt "disk full")),
    .save { (sampleSave [(6, 7)]).checkpoint with totalSize := some 9 } (.ok ()),
    .save (sampleSave [(2, 3)]).checkpoint (.ok ())]

/-- Only the save that succeeded in its generation is stored. -/
theorem coordinated_saves_monotone_sample :
    ((runCalls new (fun _ => []) sampleCalls).1.stored.get? "job").map
      Checkpoint.completedRanges = some [(0, 3)] := by
  have hcalls : ∀ c ∈ sampleCalls, c.Canonical := by
    intro c hc
    simp only [sampleCalls, List.mem_cons, List.not_mem_nil, or_false] at hc
    rcases hc with rfl | rfl | rfl | rfl <;>
      exact ⟨List.pairwise_singleton _ _, fun r hr => by rw [List.mem_singleton.mp hr]; decide⟩
  rw [(coordinated_saves_monotone sampleCalls hcalls).1 "job"]
  decide

end CoordinatedStore

end KDown
