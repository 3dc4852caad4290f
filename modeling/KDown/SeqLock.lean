/-
KDown/SeqLock.lean

A sequence lock, one atomic access at a time.

One writer publishes records of several fields.  A publication loads the
sequence number, stores it with the low bit set, stores the fields one after
the other and stores the next even number.  A reader loads the number, starts
over when it is odd, loads the fields, loads the number again and starts over
when it has changed.  The number is a machine word of `w` bits, and it does
not come back to an old value as long as fewer than `2 ^ (w - 1)` records are
published.

The fields are an arbitrary type `F` and `fields` is the order in which both
sides go through them.  Two ghost components record what happened: the
records whose publication is complete, and for each reader what its calls
returned, each result with the number of complete publications when the call
began and when it ended.

* `readerOk`: while the number a reader saw is still there, every field it
  has loaded is still in its cell.
* `SeqLock.exists_numbers`: what a call returned is the record of one
  publication, complete between the call's begin and its end, and one
  reader's record numbers never go down.
* `SeqLock.begun_of_run`: the ghost records are those of the run's
  publication events.
-/
import KDown.Runs
import Mathlib.Data.List.Basic
import Mathlib.Data.Nat.Bitwise
import Mathlib.Tactic.Common

namespace KDown

/-- What the writer does next. -/
inductive SeqWriter (F V : Type*)
  | idle
  | load (r : F → V)
  | storeOdd (r : F → V) (seq : ℕ)
  /-- The fields still to be stored; with none left, the even number. -/
  | storeFields (r : F → V) (seq : ℕ) (todo : List F)

/-- The record being published. -/
def SeqWriter.inFlight {F V : Type*} : SeqWriter F V → List (F → V)
  | .idle => []
  | .load r => [r]
  | .storeOdd r _ => [r]
  | .storeFields r _ _ => [r]

/-- What a reader does next. -/
inductive SeqReader (F V : Type*)
  | idle
  | top (begun : ℕ)
  /-- The fields still to be loaded; with none left, the number once more. -/
  | loading (begun seq : ℕ) (got : F → V) (todo : List F)

/-- A result, with the complete publications when the call began and ended. -/
structure SeqReading (F V : Type*) where
  begun : ℕ
  result : F → V
  ended : ℕ

/-- The lock with its writer and readers, and what happened. -/
structure SeqLock (F V ι : Type*) where
  sequence : ℕ
  cell : F → V
  writer : SeqWriter F V
  reader : ι → SeqReader F V
  initial : F → V
  /-- Complete publications, oldest first. -/
  published : List (F → V)
  /-- What each reader's calls returned, oldest first. -/
  returned : ι → List (SeqReading F V)

/-- A call begins, or takes its next access. -/
inductive SeqEvent (F V ι : Type*)
  | publish (r : F → V)
  | writer
  | snapshot (i : ι)
  | reader (i : ι)

/-- The record a publication event publishes. -/
def SeqEvent.record {F V ι : Type*} : SeqEvent F V ι → Option (F → V)
  | .publish r => some r
  | _ => none

namespace SeqLock

variable {F V ι : Type*}

/-- All cells hold the first record and nobody is at work. -/
def new (r : F → V) : SeqLock F V ι where
  sequence := 0
  cell := r
  writer := .idle
  reader := fun _ => .idle
  initial := r
  published := []
  returned := fun _ => []

section Steps

variable [DecidableEq F] [DecidableEq ι] [Inhabited V]

/-- The reader moves on. -/
def setReader (s : SeqLock F V ι) (i : ι) (q : SeqReader F V) : SeqLock F V ι :=
  { s with reader := Function.update s.reader i q }

/-- The writer's next access. -/
def writerStep (w : ℕ) (fields : List F) (s : SeqLock F V ι) :
    SeqWriter F V → Option (SeqLock F V ι)
  | .idle => none
  | .load r => some { s with writer := .storeOdd r s.sequence }
  | .storeOdd r seq =>
      some { s with sequence := seq ||| 1, writer := .storeFields r seq fields }
  | .storeFields r seq (f :: todo) =>
      some { s with cell := Function.update s.cell f (r f), writer := .storeFields r seq todo }
  | .storeFields r seq [] =>
      some { s with
        sequence := ((seq ||| 1) + 1) % 2 ^ w
        writer := .idle
        published := s.published ++ [r] }

/-- The next access of reader `i`. -/
def readerStep (fields : List F) (s : SeqLock F V ι) (i : ι) :
    SeqReader F V → Option (SeqLock F V ι)
  | .idle => none
  | .top b =>
      if s.sequence % 2 = 1 then some (s.setReader i (.top b))
      else some (s.setReader i (.loading b s.sequence (fun _ => default) fields))
  | .loading b seq got (f :: todo) =>
      some (s.setReader i (.loading b seq (Function.update got f (s.cell f)) todo))
  | .loading b seq got [] =>
      if seq = s.sequence then
        some { s.setReader i .idle with
          returned := Function.update s.returned i
            (s.returned i ++ [⟨b, got, s.published.length⟩]) }
      else some (s.setReader i (.top b))

/-- One atomic access of one party, or the call that starts a series. -/
def step (w : ℕ) (fields : List F) (s : SeqLock F V ι) :
    SeqEvent F V ι → Option (SeqLock F V ι)
  | .publish r =>
      match s.writer with
      | .idle => some { s with writer := .load r }
      | _ => none
  | .writer => s.writerStep w fields s.writer
  | .snapshot i =>
      match s.reader i with
      | .idle => some (s.setReader i (.top s.published.length))
      | _ => none
  | .reader i => s.readerStep fields i (s.reader i)

end Steps

/-- Publications begun: the complete ones and the one under way. -/
def begun (s : SeqLock F V ι) : List (F → V) := s.published ++ s.writer.inFlight

/-- Record number `k`; number 0 is the initial one. -/
def recordAt (s : SeqLock F V ι) (k : ℕ) : Option (F → V) :=
  (s.initial :: s.published)[k]?

/-! ### The invariant -/

/-- The cells hold the last record published. -/
def Settled (s : SeqLock F V ι) : Prop := s.recordAt s.published.length = some s.cell

/-- What the writer has loaded and stored so far. -/
def writerOk (s : SeqLock F V ι) : SeqWriter F V → Prop
  | .idle => s.sequence = 2 * s.published.length ∧ s.Settled
  | .load _ => s.sequence = 2 * s.published.length ∧ s.Settled
  | .storeOdd _ seq =>
      s.sequence = 2 * s.published.length ∧ s.Settled ∧ seq = 2 * s.published.length
  | .storeFields r seq todo =>
      s.sequence = 2 * s.published.length + 1 ∧ seq = 2 * s.published.length ∧
        ∀ f, f ∈ todo ∨ s.cell f = r f

/-- While the number the reader saw is still there, what it has loaded is
still in the cells. -/
def readerOk (s : SeqLock F V ι) : SeqReader F V → Prop
  | .idle => True
  | .top b => b ≤ s.published.length
  | .loading b seq got todo =>
      ∃ m, seq = 2 * m ∧ b ≤ m ∧ m ≤ s.published.length ∧
        (s.sequence = 2 * m → ∀ f, f ∈ todo ∨ got f = s.cell f)

/-- Calls before this one ended before it began. -/
def callsBefore (log : List (SeqReading F V)) : SeqReader F V → Prop
  | .idle => True
  | .top b => ∀ e ∈ log, e.ended ≤ b
  | .loading b _ _ _ => ∀ e ∈ log, e.ended ≤ b

/-- The result is a record that was complete between begin and end. -/
def ReadingOk (s : SeqLock F V ι) (e : SeqReading F V) : Prop :=
  e.ended ≤ s.published.length ∧
    ∃ k, e.begun ≤ k ∧ k ≤ e.ended ∧ s.recordAt k = some e.result

/-- The writer, the readers and the record of what happened fit together. -/
structure Inv (s : SeqLock F V ι) : Prop where
  writer : s.writerOk s.writer
  reader : ∀ i, s.readerOk (s.reader i)
  reading : ∀ i, ∀ e ∈ s.returned i, s.ReadingOk e
  before : ∀ i, callsBefore (s.returned i) (s.reader i)
  ordered : ∀ i, (s.returned i).Pairwise fun a b => a.ended ≤ b.begun

theorem Inv.new (r : F → V) : (SeqLock.new r : SeqLock F V ι).Inv where
  writer := ⟨rfl, rfl⟩
  reader := fun _ => trivial
  reading := fun _ _ h => absurd h List.not_mem_nil
  before := fun _ => trivial
  ordered := fun _ => List.Pairwise.nil

/-- An even number is a settled one. -/
theorem Inv.settled {s : SeqLock F V ι} (h : s.Inv) {m : ℕ} (hm : s.sequence = 2 * m) :
    m = s.published.length ∧ s.Settled := by
  have hw := h.writer
  rcases hwr : s.writer with - | r | ⟨r, seq⟩ | ⟨r, seq, todo⟩
  · rw [hwr] at hw
    exact ⟨by have := hw.1; omega, hw.2⟩
  · rw [hwr] at hw
    exact ⟨by have := hw.1; omega, hw.2⟩
  · rw [hwr] at hw
    exact ⟨by have := hw.1; omega, hw.2.1⟩
  · rw [hwr] at hw
    have := hw.1
    omega

/-- A complete publication is one of those begun. -/
theorem begun_of_recordAt {s : SeqLock F V ι} {k : ℕ} {got : F → V} (h : s.recordAt k = some got) :
    (s.initial :: s.begun)[k]? = some got := by
  obtain ⟨hk, hget⟩ := List.getElem?_eq_some_iff.mp h
  rw [begun, ← List.cons_append, List.getElem?_append_left hk]
  exact h

/-- The low bit set on an even number. -/
theorem two_mul_lor_one (n : ℕ) : 2 * n ||| 1 = 2 * n + 1 := by
  have h := Nat.two_pow_add_eq_or_of_lt (i := 1) (b := 1) (by decide) n
  rw [pow_one] at h
  exact h.symm

theorem exists_mem_right {α β : Type*} {R : α → β → Prop} {l : List α} {l' : List β}
    (h : List.Forall₂ R l l') {a : α} (ha : a ∈ l) : ∃ b ∈ l', R a b := by
  induction h with
  | nil => exact absurd ha List.not_mem_nil
  | cons hab _ ih =>
    rcases List.mem_cons.mp ha with rfl | ha
    · exact ⟨_, List.mem_cons_self, hab⟩
    · obtain ⟨b, hb, hr⟩ := ih ha
      exact ⟨b, List.mem_cons_of_mem _ hb, hr⟩

/-- The results of one reader carry numbers that never go down, each the
number of the record returned. -/
theorem exists_numbers {s : SeqLock F V ι} {log : List (SeqReading F V)}
    (hok : ∀ e ∈ log, s.ReadingOk e) (hord : log.Pairwise fun a b => a.ended ≤ b.begun) :
    ∃ ks : List ℕ, ks.Pairwise (· ≤ ·) ∧
      List.Forall₂ (fun k e => e.begun ≤ k ∧ k ≤ e.ended ∧ s.recordAt k = some e.result)
        ks log := by
  induction log with
  | nil => exact ⟨[], List.Pairwise.nil, List.Forall₂.nil⟩
  | cons e log ih =>
    obtain ⟨hhead, htail⟩ := List.pairwise_cons.mp hord
    obtain ⟨ks, hks, hall⟩ := ih (fun e' he' => hok e' (List.mem_cons_of_mem _ he')) htail
    obtain ⟨-, k, hk⟩ := hok e List.mem_cons_self
    refine ⟨k :: ks, List.pairwise_cons.mpr ⟨fun k' hk' => ?_, hks⟩, .cons hk hall⟩
    obtain ⟨e', he', hbk⟩ := exists_mem_right hall hk'
    exact hk.2.1.trans ((hhead e' he').trans hbk.1)

/-! ### What a step keeps -/

/-- `s'` comes after `s`: publications are only added, and an even number
that a reader can have seen in `s` is still there only if the cells are. -/
structure Follows (s s' : SeqLock F V ι) : Prop where
  initial : s'.initial = s.initial
  grown : ∃ l, s'.published = s.published ++ l
  cells : ∀ m ≤ s.published.length, s'.sequence = 2 * m →
    s.sequence = 2 * m ∧ s'.cell = s.cell

variable {s s' : SeqLock F V ι}

theorem Follows.length_le (h : Follows s s') : s.published.length ≤ s'.published.length := by
  obtain ⟨l, hl⟩ := h.grown
  rw [hl, List.length_append]
  omega

theorem Follows.recordAt (h : Follows s s') {k : ℕ} (hk : k ≤ s.published.length) :
    s'.recordAt k = s.recordAt k := by
  obtain ⟨l, hl⟩ := h.grown
  show (s'.initial :: s'.published)[k]? = (s.initial :: s.published)[k]?
  rw [h.initial, hl, ← List.cons_append]
  exact List.getElem?_append_left (by rw [List.length_cons]; omega)

/-- **What a reader has loaded stays valid** while the number it saw is there. -/
theorem Follows.readerOk (h : Follows s s') {q : SeqReader F V} (hq : s.readerOk q) :
    s'.readerOk q := by
  rcases q with - | b | ⟨b, seq, got, todo⟩
  · trivial
  · exact le_trans hq h.length_le
  · obtain ⟨m, hseq, hb, hm, hgot⟩ := hq
    refine ⟨m, hseq, hb, hm.trans h.length_le, fun hs => ?_⟩
    obtain ⟨hold, hcell⟩ := h.cells m hm hs
    rw [hcell]
    exact hgot hold

theorem Follows.readingOk (h : Follows s s') {e : SeqReading F V} (he : s.ReadingOk e) :
    s'.ReadingOk e := by
  obtain ⟨hend, k, hbk, hke, hrec⟩ := he
  refine ⟨hend.trans h.length_le, k, hbk, hke, ?_⟩
  rw [h.recordAt (hke.trans hend)]
  exact hrec

/-- A step that changes no reader keeps the readers' part of the invariant. -/
theorem Inv.of_follows (hi : s.Inv) (h : Follows s s') (hr : s'.reader = s.reader)
    (ht : s'.returned = s.returned) (hw : s'.writerOk s'.writer) : s'.Inv where
  writer := hw
  reader := fun i => by
    rw [hr]
    exact h.readerOk (hi.reader i)
  reading := fun i e he => by
    rw [ht] at he
    exact h.readingOk (hi.reading i e he)
  before := fun i => by
    rw [ht, hr]
    exact hi.before i
  ordered := fun i => by
    rw [ht]
    exact hi.ordered i

/-- Same number, same cells, same records. -/
theorem Follows.of_eq (hi : s'.initial = s.initial) (hp : s'.published = s.published)
    (hs : s'.sequence = s.sequence) (hc : s'.cell = s.cell) : Follows s s' where
  initial := hi
  grown := ⟨[], by rw [hp, List.append_nil]⟩
  cells := fun _ _ h => ⟨hs ▸ h, hc⟩

theorem settled_append {r : F → V} (hp : s'.published = s.published ++ [r])
    (hc : s'.cell = r) : s'.Settled := by
  show (s'.initial :: s'.published)[s'.published.length]? = some s'.cell
  rw [hp, hc, List.length_append, List.length_singleton, List.getElem?_cons_succ]
  exact List.getElem?_concat_length

variable {w : ℕ} {fields : List F}

/-- A reader may change as long as what it has loaded is true. -/
theorem Inv.setReader [DecidableEq ι] (hi : s.Inv) {i : ι} {q : SeqReader F V} (hq : s.readerOk q)
    (hb : callsBefore (s.returned i) q) : (s.setReader i q).Inv where
  writer := hi.writer
  reader := fun j => by
    show s.readerOk (Function.update s.reader i q j)
    rcases eq_or_ne j i with rfl | hne
    · rw [Function.update_self]
      exact hq
    · rw [Function.update_of_ne hne]
      exact hi.reader j
  reading := hi.reading
  before := fun j => by
    show callsBefore (s.returned j) (Function.update s.reader i q j)
    rcases eq_or_ne j i with rfl | hne
    · rw [Function.update_self]
      exact hb
    · rw [Function.update_of_ne hne]
      exact hi.before j
  ordered := hi.ordered

/-- A reader's call ends with result `got`. -/
theorem Inv.finish [DecidableEq ι] (hi : s.Inv) {i : ι} {b : ℕ} {got : F → V}
    (hbefore : ∀ e ∈ s.returned i, e.ended ≤ b)
    (hok : s.ReadingOk ⟨b, got, s.published.length⟩) :
    ({ s.setReader i .idle with
        returned := Function.update s.returned i
          (s.returned i ++ [⟨b, got, s.published.length⟩]) } : SeqLock F V ι).Inv where
  writer := hi.writer
  reader := (hi.setReader (i := i) (q := .idle) trivial trivial).reader
  reading := fun j e he => by
    rcases eq_or_ne j i with rfl | hne
    · simp only [Function.update_self, List.mem_append, List.mem_singleton] at he
      rcases he with he | rfl
      · exact hi.reading j e he
      · exact hok
    · simp only [Function.update_of_ne hne] at he
      exact hi.reading j e he
  before := fun j => by
    show callsBefore _ (Function.update s.reader i .idle j)
    rcases eq_or_ne j i with rfl | hne
    · rw [Function.update_self]
      trivial
    · simp only [Function.update_of_ne hne]
      exact hi.before j
  ordered := fun j => by
    rcases eq_or_ne j i with rfl | hne
    · simp only [Function.update_self]
      refine List.pairwise_append.mpr ⟨hi.ordered j, List.pairwise_singleton _ _, ?_⟩
      intro e he e' he'
      rw [List.mem_singleton.mp he']
      exact hbefore e he
    · simp only [Function.update_of_ne hne]
      exact hi.ordered j

/-- **The writer's steps**: the number goes up, the fields are stored, the
number goes up. -/
theorem Inv.writerStep [DecidableEq F] (hi : s.Inv) (hfields : ∀ f, f ∈ fields)
    (hbound : 2 * s.begun.length < 2 ^ w)
    (h : s.writerStep w fields s.writer = some s') : s'.Inv := by
  have hw := hi.writer
  rcases hwr : s.writer with - | r | ⟨r, seq⟩ | ⟨r, seq, - | ⟨f, todo⟩⟩
  · rw [hwr] at h
    exact absurd h (by simp [SeqLock.writerStep])
  · -- the number is loaded
    rw [hwr] at h hw
    rw [← Option.some.inj h]
    exact hi.of_follows (.of_eq rfl rfl rfl rfl) rfl rfl ⟨hw.1, hw.2, hw.1⟩
  · -- the odd number is stored: whoever saw the even one will notice
    rw [hwr] at h hw
    obtain ⟨hseq, -, rfl⟩ := hw
    rw [← Option.some.inj h]
    refine hi.of_follows ⟨rfl, ⟨[], (List.append_nil _).symm⟩, fun m hm hs => ?_⟩ rfl rfl ?_
    · have hodd : 2 * s.published.length + 1 = 2 * m := (two_mul_lor_one _).symm.trans hs
      omega
    · exact ⟨two_mul_lor_one _, rfl, fun f => .inl (hfields f)⟩
  · -- the next even number is stored
    rw [hwr] at h hw
    obtain ⟨hseq, rfl, hcell⟩ := hw
    have hb : s.begun.length = s.published.length + 1 := by
      rw [begun, hwr, List.length_append]
      rfl
    have hnext : ((2 * s.published.length ||| 1) + 1) % 2 ^ w = 2 * (s.published.length + 1) := by
      rw [two_mul_lor_one, Nat.mod_eq_of_lt (by omega)]
      omega
    have hall : s.cell = r := funext fun f => (hcell f).resolve_left List.not_mem_nil
    rw [← Option.some.inj h]
    refine hi.of_follows ⟨rfl, ⟨[r], rfl⟩, fun m hm hs => ?_⟩ rfl rfl ⟨?_, ?_⟩
    · have : 2 * (s.published.length + 1) = 2 * m := hnext.symm.trans hs
      omega
    · rw [List.length_append, List.length_singleton]
      exact hnext
    · exact settled_append (s := s) rfl hall
  · -- a field is stored
    rw [hwr] at h hw
    obtain ⟨hseq, hold, hcell⟩ := hw
    rw [← Option.some.inj h]
    refine hi.of_follows ⟨rfl, ⟨[], (List.append_nil _).symm⟩, fun m hm hs => ?_⟩ rfl rfl
      ⟨hseq, hold, fun g => ?_⟩
    · have : 2 * s.published.length + 1 = 2 * m := hseq.symm.trans hs
      omega
    · show g ∈ todo ∨ Function.update s.cell f (r f) g = r g
      rcases eq_or_ne g f with rfl | hne
      · exact .inr (Function.update_self ..)
      · rw [Function.update_of_ne hne]
        exact (hcell g).imp_left fun hg => (List.mem_cons.mp hg).resolve_left hne

variable [DecidableEq F] [DecidableEq ι] [Inhabited V]

/-- **The reader's steps**: the number is read before and behind the fields. -/
theorem Inv.readerStep (hi : s.Inv) (hfields : ∀ f, f ∈ fields) {i : ι}
    (h : s.readerStep fields i (s.reader i) = some s') : s'.Inv := by
  have hr := hi.reader i
  have hbefore := hi.before i
  rcases hrd : s.reader i with - | b | ⟨b, seq, got, - | ⟨f, todo⟩⟩
  · rw [hrd] at h
    exact absurd h (by simp [SeqLock.readerStep])
  · -- the number is loaded for the first time
    rw [hrd] at h hr hbefore
    simp only [SeqLock.readerStep] at h
    split at h
    · rw [← Option.some.inj h]
      exact hi.setReader hr hbefore
    · next heven =>
      rw [← Option.some.inj h]
      have hs : s.sequence = 2 * (s.sequence / 2) := by omega
      have hm := (hi.settled hs).1
      exact hi.setReader ⟨s.sequence / 2, hs, hm ▸ hr, hm.le, fun _ f => .inl (hfields f)⟩ hbefore
  · -- the number is loaded again
    rw [hrd] at h hr hbefore
    obtain ⟨m, rfl, hb, hm, hgot⟩ := hr
    simp only [SeqLock.readerStep] at h
    split at h
    · next hs =>
      rw [← Option.some.inj h]
      obtain ⟨hlast, hset⟩ := hi.settled hs.symm
      have hcell : got = s.cell :=
        funext fun f => (hgot hs.symm f).resolve_left List.not_mem_nil
      refine hi.finish hbefore ⟨le_rfl, m, hb, hm, ?_⟩
      rw [hlast, hcell]
      exact hset
    · rw [← Option.some.inj h]
      exact hi.setReader (le_trans hb hm) hbefore
  · -- a field is loaded
    rw [hrd] at h hr hbefore
    obtain ⟨m, hseq, hb, hm, hgot⟩ := hr
    rw [← Option.some.inj h]
    refine hi.setReader ⟨m, hseq, hb, hm, fun hs g => ?_⟩ hbefore
    rcases eq_or_ne g f with rfl | hne
    · exact .inr (Function.update_self ..)
    · rw [Function.update_of_ne hne]
      exact (hgot hs g).imp_left fun hg => (List.mem_cons.mp hg).resolve_left hne

/-- A publication event begins one publication, and nothing else begins or
forgets one; the first record stays. -/
theorem begun_of_step {e : SeqEvent F V ι} (h : s.step w fields e = some s') :
    s'.begun = s.begun ++ e.record.toList ∧ s'.initial = s.initial := by
  rcases e with r | - | i | i
  · simp only [step] at h
    split at h
    · next hwr =>
      rw [← Option.some.inj h]
      simp [begun, hwr, SeqWriter.inFlight, SeqEvent.record]
    · exact absurd h (by simp)
  · simp only [step] at h
    rcases hwr : s.writer with - | r | ⟨r, seq⟩ | ⟨r, seq, - | ⟨f, todo⟩⟩
    · rw [hwr] at h
      exact absurd h (by simp [writerStep])
    all_goals
      rw [hwr] at h
      rw [← Option.some.inj h]
      simp [begun, hwr, SeqWriter.inFlight, SeqEvent.record]
  · simp only [step] at h
    split at h
    · rw [← Option.some.inj h]
      exact ⟨(List.append_nil _).symm, rfl⟩
    · exact absurd h (by simp)
  · simp only [step] at h
    rcases hrd : s.reader i with - | b | ⟨b, seq, got, - | ⟨f, todo⟩⟩
    · rw [hrd] at h
      exact absurd h (by simp [readerStep])
    · rw [hrd] at h
      simp only [readerStep] at h
      split at h <;> exact (Option.some.inj h) ▸ ⟨(List.append_nil _).symm, rfl⟩
    · rw [hrd] at h
      simp only [readerStep] at h
      split at h <;> exact (Option.some.inj h) ▸ ⟨(List.append_nil _).symm, rfl⟩
    · rw [hrd] at h
      exact (Option.some.inj h) ▸ ⟨(List.append_nil _).symm, rfl⟩

/-- **The invariant is kept** while the numbers do not wrap. -/
theorem Inv.step (hi : s.Inv) (hfields : ∀ f, f ∈ fields) (hbound : 2 * s.begun.length < 2 ^ w)
    {e : SeqEvent F V ι} (h : s.step w fields e = some s') : s'.Inv := by
  rcases e with r | - | i | i
  · simp only [SeqLock.step] at h
    split at h
    · next hwr =>
      have hw := hi.writer
      rw [hwr] at hw
      rw [← Option.some.inj h]
      exact hi.of_follows (.of_eq rfl rfl rfl rfl) rfl rfl hw
    · exact absurd h (by simp)
  · exact hi.writerStep hfields hbound h
  · simp only [SeqLock.step] at h
    split at h
    · rw [← Option.some.inj h]
      exact hi.setReader le_rfl fun e he => (hi.reading i e he).1
    · exact absurd h (by simp)
  · exact hi.readerStep hfields h

/-! ### Whole runs -/

/-- The publications of a run are the records of its publication events, in
their order. -/
theorem begun_of_run {r : F → V} {es : List (SeqEvent F V ι)}
    (h : runEvents (SeqLock.step w fields) (new r) es = some s) :
    s.begun = es.filterMap SeqEvent.record ∧ s.initial = r := by
  refine runEvents_invariant
    (I := fun es s => s.begun = es.filterMap SeqEvent.record ∧ s.initial = r)
    ⟨rfl, rfl⟩ (fun es s e s' _ ih hs => ?_) h
  obtain ⟨hbegun, hinit⟩ := begun_of_step hs
  refine ⟨?_, hinit.trans ih.2⟩
  rw [hbegun, ih.1, List.filterMap_append]
  rcases e with r | - | i | i <;> rfl

/-- Along every interleaving with few enough publications the invariant
holds. -/
theorem inv_of_run (hfields : ∀ f, f ∈ fields) {r : F → V} {es : List (SeqEvent F V ι)}
    (h : runEvents (SeqLock.step w fields) (new r) es = some s)
    (hbound : 2 * s.begun.length < 2 ^ w) : s.Inv := by
  -- the bound is on the state reached, so it goes into the induction
  refine runEvents_invariant (I := fun _ s => 2 * s.begun.length < 2 ^ w → s.Inv)
    (fun _ => Inv.new r) (fun es s e s' _ ih hs hb => ?_) h hbound
  rw [(begun_of_step hs).1, List.length_append] at hb
  have hb' : 2 * s.begun.length < 2 ^ w := by omega
  exact (ih hb').step hfields hb' hs

end SeqLock

end KDown
