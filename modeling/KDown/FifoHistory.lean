/-
KDown/FifoHistory.lean

First come, first served: the history of a service that admits requests.

A request starts; it is admitted at once, or it registers as a waiter and is
admitted or dropped later.  The history stamps each of these moments with a
clock and keeps the waiters, in the order of their registration.  A service
is fair when it admits a request at once only if nobody waits, and otherwise
only the first waiter.

* `FifoHistory.Inv.grant`, `Inv.register`, ...: the invariant is kept by every
  fair move.
* `FifoHistory.Inv.inOrder`: waiters are admitted in the order of their
  registration.
* `FifoHistory.Inv.noOvertaking`: whoever starts after a waiter registered is
  not admitted before that waiter is admitted or dropped.
-/
import Mathlib.Algebra.Order.Ring.Nat
import Mathlib.Data.List.Basic
import Mathlib.Logic.Function.Basic
import Mathlib.Tactic.Common

namespace KDown

/-- When each request started, registered, was admitted and was dropped. -/
structure FifoHistory (ι : Type*) where
  clock : ℕ
  started : ι → Option ℕ
  registered : ι → Option ℕ
  admitted : ι → Option ℕ
  dropped : ι → Option ℕ
  /-- Registered, neither admitted nor dropped, first come first. -/
  waiting : List ι

namespace FifoHistory

variable {ι : Type*}

/-- Nothing has happened. -/
def new : FifoHistory ι where
  clock := 0
  started := fun _ => none
  registered := fun _ => none
  admitted := fun _ => none
  dropped := fun _ => none
  waiting := []

/-- Waiters are admitted in the order of their registration. -/
def InOrder (h : FifoHistory ι) : Prop :=
  ∀ a b ta tb xa xb, h.registered a = some ta → h.registered b = some tb →
    h.admitted a = some xa → h.admitted b = some xb → ta < tb → xa < xb

/-- A request that started after a waiter registered is admitted only after
that waiter was admitted or dropped. -/
def NoOvertaking (h : FifoHistory ι) : Prop :=
  ∀ r w b t x, h.started r = some b → h.admitted r = some x → h.registered w = some t → t < b →
    ∃ c < x, h.admitted w = some c ∨ h.dropped w = some c

/-- Of those registered and neither admitted nor dropped, `i` registered first. -/
def Earliest (h : FifoHistory ι) (i : ι) : Prop :=
  ∃ t, h.registered i = some t ∧ h.admitted i = none ∧ h.dropped i = none ∧
    ∀ w tw, h.registered w = some tw → h.admitted w = none → h.dropped w = none → w ≠ i → t < tw

/-- The times fit together, and the list of those who wait is sorted by them. -/
structure Inv (h : FifoHistory ι) : Prop where
  started_lt : ∀ i b, h.started i = some b → b < h.clock
  admitted_lt : ∀ i x, h.admitted i = some x → x < h.clock
  dropped_lt : ∀ i x, h.dropped i = some x → x < h.clock
  registered_lt : ∀ i t, h.registered i = some t → t < h.clock
  started_first : ∀ i t, h.registered i = some t → ∃ b < t, h.started i = some b
  admitted_started : ∀ i, h.admitted i ≠ none → h.started i ≠ none
  mem_waiting : ∀ i, i ∈ h.waiting ↔
    h.registered i ≠ none ∧ h.admitted i = none ∧ h.dropped i = none
  sorted : h.waiting.Pairwise fun a b =>
    ∀ ta tb, h.registered a = some ta → h.registered b = some tb → ta < tb
  /-- Those admitted registered before those who still wait. -/
  behind : ∀ a w ta tw, h.registered a = some ta → h.admitted a ≠ none → w ∈ h.waiting →
    h.registered w = some tw → ta < tw
  inOrder : h.InOrder
  noOvertaking : h.NoOvertaking

theorem Inv.new : (FifoHistory.new : FifoHistory ι).Inv where
  started_lt := fun _ _ h => absurd h (by simp [FifoHistory.new])
  admitted_lt := fun _ _ h => absurd h (by simp [FifoHistory.new])
  dropped_lt := fun _ _ h => absurd h (by simp [FifoHistory.new])
  registered_lt := fun _ _ h => absurd h (by simp [FifoHistory.new])
  started_first := fun _ _ h => absurd h (by simp [FifoHistory.new])
  admitted_started := fun _ h => absurd h (by simp [FifoHistory.new])
  mem_waiting := fun i => by simp [FifoHistory.new]
  sorted := List.Pairwise.nil
  behind := fun _ _ _ _ h => absurd h (by simp [FifoHistory.new])
  inOrder := fun _ _ _ _ _ _ h => absurd h (by simp [FifoHistory.new])
  noOvertaking := fun _ _ _ _ _ h => absurd h (by simp [FifoHistory.new])

variable {h : FifoHistory ι} {i : ι}

theorem Inv.nodup (hi : h.Inv) : h.waiting.Nodup := by
  refine hi.sorted.imp_of_mem fun ha _ hlt => ?_
  rintro rfl
  obtain ⟨t, ht⟩ := Option.ne_none_iff_exists'.mp ((hi.mem_waiting _).mp ha).1
  exact absurd (hlt t t ht ht) (lt_irrefl t)

/-- The first waiter registered before all others. -/
theorem Inv.head_lt (hi : h.Inv) (hhead : h.waiting.head? = some i) {w : ι} (hw : w ∈ h.waiting)
    (hne : w ≠ i) {t tw : ℕ} (ht : h.registered i = some t) (htw : h.registered w = some tw) :
    t < tw := by
  obtain ⟨rest, hrest⟩ := List.head?_eq_some_iff.mp hhead
  have hsorted := hi.sorted
  rw [hrest] at hsorted hw
  exact (List.pairwise_cons.mp hsorted).1 w ((List.mem_cons.mp hw).resolve_left hne) t tw ht htw

/-- The list of those who wait begins with the earliest. -/
theorem Inv.head?_eq_iff (hi : h.Inv) : h.waiting.head? = some i ↔ h.Earliest i := by
  constructor
  · intro hhead
    have hmem := List.mem_of_mem_head? hhead
    obtain ⟨hregistered, hadmitted, hdropped⟩ := (hi.mem_waiting i).mp hmem
    obtain ⟨t, ht⟩ := Option.ne_none_iff_exists'.mp hregistered
    refine ⟨t, ht, hadmitted, hdropped, fun w tw htw hwadmitted hwdropped hne => ?_⟩
    have hw : w ∈ h.waiting :=
      (hi.mem_waiting w).mpr ⟨by rw [htw]; exact Option.some_ne_none _, hwadmitted, hwdropped⟩
    exact hi.head_lt hhead hw hne ht htw
  · rintro ⟨t, ht, hadmitted, hdropped, hfirst⟩
    have hmem : i ∈ h.waiting :=
      (hi.mem_waiting i).mpr ⟨by rw [ht]; exact Option.some_ne_none _, hadmitted, hdropped⟩
    rcases hhead : h.waiting.head? with - | a
    · rw [List.head?_eq_none_iff.mp hhead] at hmem
      cases hmem
    · -- another head would have registered before and after `i`
      by_contra hne
      have ha := List.mem_of_mem_head? hhead
      obtain ⟨haregistered, haadmitted, hadropped⟩ := (hi.mem_waiting a).mp ha
      obtain ⟨ta, hta⟩ := Option.ne_none_iff_exists'.mp haregistered
      have hia : i ≠ a := fun heq => hne (congrArg some heq.symm)
      have hlt := hi.head_lt hhead hmem hia hta ht
      exact absurd (hfirst a ta hta haadmitted hadropped hia.symm) (by omega)

variable [DecidableEq ι]

/-- The request starts. -/
def start (h : FifoHistory ι) (i : ι) : FifoHistory ι :=
  { h with clock := h.clock + 1, started := Function.update h.started i (some h.clock) }

/-- The request registers, behind all who wait. -/
def register (h : FifoHistory ι) (i : ι) : FifoHistory ι :=
  { h with
    clock := h.clock + 1
    registered := Function.update h.registered i (some h.clock)
    waiting := h.waiting ++ [i] }

/-- The request is admitted. -/
def grant (h : FifoHistory ι) (i : ι) : FifoHistory ι :=
  { h with
    clock := h.clock + 1
    admitted := Function.update h.admitted i (some h.clock)
    waiting := h.waiting.erase i }

/-- The request is dropped. -/
def drop (h : FifoHistory ι) (i : ι) : FifoHistory ι :=
  { h with
    clock := h.clock + 1
    dropped := Function.update h.dropped i (some h.clock)
    waiting := h.waiting.erase i }

/-! ### Fair moves keep the invariant -/

/-- A stamp after an update is the clock, or an old one of somebody else. -/
theorem update_eq_some {f : ι → Option ℕ} {c : ℕ} {j : ι} {t : ℕ}
    (hj : Function.update f i (some c) j = some t) : (j = i ∧ t = c) ∨ (j ≠ i ∧ f j = some t) := by
  rcases eq_or_ne j i with rfl | hne
  · rw [Function.update_self] at hj
    exact .inl ⟨rfl, (Option.some.inj hj).symm⟩
  · rw [Function.update_of_ne hne] at hj
    exact .inr ⟨hne, hj⟩

theorem update_lt {f : ι → Option ℕ} {c : ℕ} (hf : ∀ j t, f j = some t → t < c) (j : ι) (t : ℕ)
    (hj : Function.update f i (some c) j = some t) : t < c + 1 := by
  rcases update_eq_some hj with ⟨-, rfl⟩ | ⟨-, hj⟩
  · exact Nat.lt_succ_self t
  · exact (hf j t hj).trans (Nat.lt_succ_self c)

theorem update_ne_none {f : ι → Option ℕ} {c : ℕ} {j : ι} (hj : f j ≠ none) :
    Function.update f i (some c) j ≠ none := by
  rcases eq_or_ne j i with rfl | hne
  · simp
  · rwa [Function.update_of_ne hne]

/-- **A request starts**, later than all that has happened. -/
theorem Inv.start (hi : h.Inv) (hnew : h.started i = none) : (h.start i).Inv where
  started_lt := update_lt hi.started_lt
  admitted_lt := fun j x hj => (hi.admitted_lt j x hj).trans (Nat.lt_succ_self _)
  dropped_lt := fun j x hj => (hi.dropped_lt j x hj).trans (Nat.lt_succ_self _)
  registered_lt := fun j t hj => (hi.registered_lt j t hj).trans (Nat.lt_succ_self _)
  started_first := fun j t hj => by
    obtain ⟨b, hb, hs⟩ := hi.started_first j t hj
    refine ⟨b, hb, ?_⟩
    show Function.update h.started i (some h.clock) j = some b
    rw [Function.update_of_ne (by rintro rfl; rw [hnew] at hs; cases hs)]
    exact hs
  admitted_started := fun j hj => update_ne_none (hi.admitted_started j hj)
  mem_waiting := hi.mem_waiting
  sorted := hi.sorted
  behind := hi.behind
  inOrder := hi.inOrder
  noOvertaking := fun r w b t x hb hx ht hlt => by
    rcases update_eq_some hb with ⟨rfl, rfl⟩ | ⟨-, hb⟩
    · -- nobody is admitted before starting
      exact absurd hnew (hi.admitted_started r (by rw [show h.admitted r = some x from hx]; simp))
    · exact hi.noOvertaking r w b t x hb hx ht hlt

/-- **A request registers** behind all who wait. -/
theorem Inv.register (hi : h.Inv) (hs : h.started i ≠ none) (hr : h.registered i = none)
    (ha : h.admitted i = none) (hd : h.dropped i = none) : (h.register i).Inv where
  started_lt := fun j b hj => (hi.started_lt j b hj).trans (Nat.lt_succ_self _)
  admitted_lt := fun j x hj => (hi.admitted_lt j x hj).trans (Nat.lt_succ_self _)
  dropped_lt := fun j x hj => (hi.dropped_lt j x hj).trans (Nat.lt_succ_self _)
  registered_lt := update_lt hi.registered_lt
  started_first := fun j t hj => by
    rcases update_eq_some hj with ⟨rfl, rfl⟩ | ⟨-, hj⟩
    · obtain ⟨b, hb⟩ := Option.ne_none_iff_exists'.mp hs
      exact ⟨b, hi.started_lt j b hb, hb⟩
    · exact hi.started_first j t hj
  admitted_started := hi.admitted_started
  mem_waiting := fun j => by
    show j ∈ h.waiting ++ [i] ↔ Function.update h.registered i (some h.clock) j ≠ none ∧ _
    rw [List.mem_append, List.mem_singleton, hi.mem_waiting]
    rcases eq_or_ne j i with rfl | hne
    · simp [FifoHistory.register, ha, hd]
    · simp [FifoHistory.register, hne]
  sorted := by
    refine List.pairwise_append.mpr ⟨?_, List.pairwise_singleton _ _, fun a haw b hbw ta tb hta htb => ?_⟩
    · refine hi.sorted.imp_of_mem fun haw hbw hlt ta tb hta htb => ?_
      rcases update_eq_some hta with ⟨rfl, -⟩ | ⟨-, hta⟩
      · exact absurd hr ((hi.mem_waiting _).mp haw).1
      rcases update_eq_some htb with ⟨rfl, -⟩ | ⟨-, htb⟩
      · exact absurd hr ((hi.mem_waiting _).mp hbw).1
      exact hlt ta tb hta htb
    · rw [List.mem_singleton.mp hbw] at htb
      rcases update_eq_some htb with ⟨-, rfl⟩ | ⟨hne, -⟩
      · rcases update_eq_some hta with ⟨rfl, -⟩ | ⟨-, hta⟩
        · exact absurd hr ((hi.mem_waiting _).mp haw).1
        · exact hi.registered_lt a ta hta
      · exact absurd rfl hne
  behind := fun a w ta tw hta hadm hw htw => by
    rcases update_eq_some hta with ⟨rfl, -⟩ | ⟨-, hta⟩
    · exact absurd ha hadm
    rcases update_eq_some htw with ⟨-, rfl⟩ | ⟨hne, htw⟩
    · exact hi.registered_lt a ta hta
    · refine hi.behind a w ta tw hta hadm ?_ htw
      rcases List.mem_append.mp hw with hw | hw
      · exact hw
      · exact absurd (List.mem_singleton.mp hw) hne
  inOrder := fun a b ta tb xa xb hta htb hxa hxb hlt => by
    rcases update_eq_some hta with ⟨rfl, -⟩ | ⟨-, hta⟩
    · exact absurd ha (by rw [show h.admitted a = some xa from hxa]; simp)
    rcases update_eq_some htb with ⟨rfl, -⟩ | ⟨-, htb⟩
    · exact absurd ha (by rw [show h.admitted b = some xb from hxb]; simp)
    exact hi.inOrder a b ta tb xa xb hta htb hxa hxb hlt
  noOvertaking := fun r w b t x hb hx ht hlt => by
    rcases update_eq_some ht with ⟨-, rfl⟩ | ⟨-, ht⟩
    · -- whoever was admitted started before this registration
      exact absurd (hi.started_lt r b hb) (by omega)
    · exact hi.noOvertaking r w b t x hb hx ht hlt

theorem Inv.mem_erase (hi : h.Inv) {j : ι} : j ∈ h.waiting.erase i ↔ j ≠ i ∧ j ∈ h.waiting := by
  exact hi.nodup.mem_erase_iff

/-- **A request is admitted**: at once when nobody waits, otherwise as the first
waiter. -/
theorem Inv.grant (hi : h.Inv) (hs : h.started i ≠ none) (ha : h.admitted i = none)
    (hfair : (h.waiting = [] ∧ h.registered i = none) ∨ h.waiting.head? = some i) :
    (h.grant i).Inv where
  started_lt := fun j b hj => (hi.started_lt j b hj).trans (Nat.lt_succ_self _)
  admitted_lt := update_lt hi.admitted_lt
  dropped_lt := fun j x hj => (hi.dropped_lt j x hj).trans (Nat.lt_succ_self _)
  registered_lt := fun j t hj => (hi.registered_lt j t hj).trans (Nat.lt_succ_self _)
  started_first := hi.started_first
  admitted_started := fun j hj => by
    rcases eq_or_ne j i with rfl | hne
    · exact hs
    · refine hi.admitted_started j ?_
      rwa [show (h.grant i).admitted j = h.admitted j from Function.update_of_ne hne ..] at hj
  mem_waiting := fun j => by
    show j ∈ h.waiting.erase i ↔ _ ∧ Function.update h.admitted i (some h.clock) j = none ∧ _
    rw [hi.mem_erase, hi.mem_waiting]
    rcases eq_or_ne j i with rfl | hne
    · simp
    · simp [FifoHistory.grant, hne]
  sorted := hi.sorted.sublist (List.erase_sublist)
  behind := fun a w ta tw hta hadm hw htw => by
    obtain ⟨hne, hold⟩ := hi.mem_erase.mp hw
    rcases eq_or_ne a i with rfl | hai
    · rcases hfair with ⟨hnil, -⟩ | hhead
      · exact absurd hold (by rw [hnil]; simp)
      · exact hi.head_lt hhead hold hne hta htw
    · refine hi.behind a w ta tw hta ?_ hold htw
      rwa [show (h.grant i).admitted a = h.admitted a from Function.update_of_ne hai ..] at hadm
  inOrder := fun a b ta tb xa xb hta htb hxa hxb hlt => by
    rcases update_eq_some hxb with ⟨rfl, rfl⟩ | ⟨-, hb⟩
    · rcases update_eq_some hxa with ⟨rfl, -⟩ | ⟨-, hxa⟩
      · exact absurd (Option.some.inj (hta.symm.trans htb)) hlt.ne
      · exact hi.admitted_lt a xa hxa
    · rcases update_eq_some hxa with ⟨rfl, rfl⟩ | ⟨-, hxa⟩
      · -- whoever was admitted before registered before the first waiter
        rcases hfair with ⟨-, hnone⟩ | hhead
        · exact absurd hta (by rw [show (h.grant a).registered a = h.registered a from rfl, hnone]; simp)
        · have hbt := hi.behind b a tb ta htb (by rw [hb]; simp) (List.mem_of_mem_head? hhead) hta
          omega
      · exact hi.inOrder a b ta tb xa xb hta htb hxa hb hlt
  noOvertaking := fun r w b t x hb hx ht hlt => by
    have hkeep : ∀ {c : ℕ}, h.admitted w = some c ∨ h.dropped w = some c →
        (h.grant i).admitted w = some c ∨ (h.grant i).dropped w = some c := by
      rintro c (hc | hc)
      · refine .inl ?_
        rw [show (h.grant i).admitted w = Function.update h.admitted i (some h.clock) w from rfl,
          Function.update_of_ne (by rintro rfl; rw [ha] at hc; cases hc)]
        exact hc
      · exact .inr hc
    rcases update_eq_some hx with ⟨rfl, rfl⟩ | ⟨-, hx⟩
    · -- a waiter from before this request started waits no longer
      have hgone : w ∉ h.waiting := by
        intro hw
        rcases hfair with ⟨hnil, -⟩ | hhead
        · exact absurd hw (by rw [hnil]; simp)
        · obtain ⟨tr, htr⟩ := Option.ne_none_iff_exists'.mp
            ((hi.mem_waiting r).mp (List.mem_of_mem_head? hhead)).1
          obtain ⟨b', hb', hstart⟩ := hi.started_first r tr htr
          obtain rfl := Option.some.inj (hstart.symm.trans hb)
          rcases eq_or_ne w r with rfl | hne
          · obtain rfl := Option.some.inj (htr.symm.trans ht)
            omega
          · have := hi.head_lt hhead hw hne htr ht
            omega
      have hreg : h.registered w ≠ none := by
        rw [show h.registered w = some t from ht]
        simp
      rcases hadm : h.admitted w with - | c
      · rcases hdrop : h.dropped w with - | c
        · exact absurd ((hi.mem_waiting w).mpr ⟨hreg, hadm, hdrop⟩) hgone
        · exact ⟨c, hi.dropped_lt w c hdrop, hkeep (.inr hdrop)⟩
      · exact ⟨c, hi.admitted_lt w c hadm, hkeep (.inl hadm)⟩
    · obtain ⟨c, hc, hw⟩ := hi.noOvertaking r w b t x hb hx ht hlt
      exact ⟨c, hc, hkeep hw⟩

/-- **A request is dropped**, from the queue or out of its admission. -/
theorem Inv.drop (hi : h.Inv) (hd : h.dropped i = none) : (h.drop i).Inv where
  started_lt := fun j b hj => (hi.started_lt j b hj).trans (Nat.lt_succ_self _)
  admitted_lt := fun j x hj => (hi.admitted_lt j x hj).trans (Nat.lt_succ_self _)
  dropped_lt := update_lt hi.dropped_lt
  registered_lt := fun j t hj => (hi.registered_lt j t hj).trans (Nat.lt_succ_self _)
  started_first := hi.started_first
  admitted_started := hi.admitted_started
  mem_waiting := fun j => by
    show j ∈ h.waiting.erase i ↔ _ ∧ _ ∧ Function.update h.dropped i (some h.clock) j = none
    rw [hi.mem_erase, hi.mem_waiting]
    rcases eq_or_ne j i with rfl | hne
    · simp
    · simp [FifoHistory.drop, hne]
  sorted := hi.sorted.sublist (List.erase_sublist)
  behind := fun a w ta tw hta hadm hw htw =>
    hi.behind a w ta tw hta hadm (hi.mem_erase.mp hw).2 htw
  inOrder := hi.inOrder
  noOvertaking := fun r w b t x hb hx ht hlt => by
    obtain ⟨c, hc, hw⟩ := hi.noOvertaking r w b t x hb hx ht hlt
    refine ⟨c, hc, hw.imp_right fun hdrop => ?_⟩
    rw [show (h.drop i).dropped w = Function.update h.dropped i (some h.clock) w from rfl,
      Function.update_of_ne (by rintro rfl; rw [hd] at hdrop; cases hdrop)]
    exact hdrop

end FifoHistory

end KDown
