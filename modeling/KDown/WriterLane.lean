/-
KDown/WriterLane.lean

The blocking lane through which one worker writes (io/writer_lane.rs): a channel
with room for one request, a task that writes what it receives, and a one-shot
channel for each acknowledgment.

* A call of `write` waits for room, then for its acknowledgment; its future may
  be dropped at either place, and what was sent by then is written all the same.
* The channel is open for as long as a sender exists, the lane's own or that of
  a handle.  The task leaves when it is closed and empty.
* The write itself answers as it likes, and may panic; the runtime may drop the
  task before its first write.

Which sender gets the room is left open.  The invariant `LaneInv` says where the
accepted requests are; `lane_exactly_once` reads off what the callers and the
owner of the output rely on.
-/
import KDown.Errors
import KDown.Runs
import Mathlib.Data.Finset.Erase
import Mathlib.Data.Finset.Insert
import Mathlib.Logic.Function.Basic

namespace KDown

/-- A payload chunk and its place; `id` tells the calls apart. -/
structure LaneRequest where
  id : ℕ
  offset : UInt64
  data : List UInt8

/-- Where the thread of a lane stands. -/
inductive LaneTask
  | receiving
  | writing (r : LaneRequest)
  | acking (r : LaneRequest) (result : Except DownloadError Unit)
  | exited
  | panicked

/-- What a holder of a handle is doing. -/
inductive LaneCaller
  | idle
  | sending (r : LaneRequest)
  | awaiting (r : LaneRequest)
  /-- The acknowledgment is in its channel. -/
  | answered (r : LaneRequest) (result : Except DownloadError Unit)

/-- The error of a write that nobody will answer. -/
def laneClosedError : DownloadError :=
  .sinkWrite "writer lane shut down before acknowledging the write"

/-- A lane, with the requests it has accepted, those it has performed and the
answers of the calls. -/
structure WriterLane where
  owner : Bool
  holders : Finset ℕ
  callers : ℕ → LaneCaller
  queue : Option LaneRequest
  task : LaneTask
  nextId : ℕ
  accepted : List LaneRequest
  performed : List (LaneRequest × Except DownloadError Unit)
  answers : List (LaneRequest × Except DownloadError Unit)

/-- What the callers and the thread do. -/
inductive LaneEvent
  | submit (c : ℕ) (offset : UInt64) (data : List UInt8)
  | send (c : ℕ)
  | refuse (c : ℕ)
  /-- The future of the call is dropped. -/
  | cancel (c : ℕ)
  | receive
  | perform (result : Except DownloadError Unit)
  /-- A write panics, or the task is dropped. -/
  | crash
  | acknowledge
  | wake (c : ℕ)
  | fail (c : ℕ)
  /-- A handle is cloned from another one, or from the lane. -/
  | clone (c : ℕ) (source : Option ℕ)
  | release (c : ℕ)
  /-- `shutdown`, or the lane is dropped. -/
  | dropOwner
  | exit

namespace LaneTask

/-- The receiver is gone. -/
def closed : LaneTask → Bool
  | .exited => true
  | .panicked => true
  | _ => false

/-- The request that is being written. -/
def current : LaneTask → List LaneRequest
  | .writing r => [r]
  | _ => []

end LaneTask

namespace WriterLane

/-- The caller moves on. -/
def setCaller (s : WriterLane) (c : ℕ) (p : LaneCaller) : WriterLane :=
  { s with callers := Function.update s.callers c p }

/-- A call returns. -/
def answer (s : WriterLane) (c : ℕ) (r : LaneRequest) (result : Except DownloadError Unit) :
    WriterLane :=
  { s.setCaller c .idle with answers := s.answers ++ [(r, result)] }

/-- The acknowledgment reaches whoever awaits it. -/
def acknowledged (r : LaneRequest) (result : Except DownloadError Unit) : LaneCaller → LaneCaller
  | .awaiting r' => if r'.id = r.id then .answered r' result else .awaiting r'
  | p => p

/-- `spawn`, and the handles of the first holders. -/
def spawn (holders : Finset ℕ) : WriterLane where
  owner := true
  holders := holders
  callers := fun _ => .idle
  queue := none
  task := .receiving
  nextId := 0
  accepted := []
  performed := []
  answers := []

/-- One event. -/
def step (s : WriterLane) : LaneEvent → Option WriterLane
  | .submit c offset data =>
      match s.callers c with
      | .idle =>
          if c ∈ s.holders then
            some { s.setCaller c (.sending ⟨s.nextId, offset, data⟩) with nextId := s.nextId + 1 }
          else none
      | _ => none
  | .send c =>
      match s.callers c, s.queue with
      | .sending r, none =>
          if s.task.closed then none
          else
            some { s.setCaller c (.awaiting r) with
              queue := some r
              accepted := s.accepted ++ [r] }
      | _, _ => none
  | .refuse c =>
      match s.callers c with
      | .sending r => if s.task.closed then some (s.answer c r (.error laneClosedError)) else none
      | _ => none
  | .cancel c => some (s.setCaller c .idle)
  | .receive =>
      match s.task, s.queue with
      | .receiving, some r => some { s with task := .writing r, queue := none }
      | _, _ => none
  | .perform result =>
      match s.task with
      | .writing r =>
          some { s with task := .acking r result, performed := s.performed ++ [(r, result)] }
      | _ => none
  | .crash =>
      -- what is queued goes with the receiver
      match s.task with
      | .receiving => some { s with task := .panicked, queue := none }
      | .writing _ => some { s with task := .panicked, queue := none }
      | _ => none
  | .acknowledge =>
      match s.task with
      | .acking r result =>
          some { s with
            task := .receiving
            callers := fun c => acknowledged r result (s.callers c) }
      | _ => none
  | .wake c =>
      match s.callers c with
      | .answered r result => some (s.answer c r result)
      | _ => none
  | .fail c =>
      match s.callers c with
      | .awaiting r => if s.task.closed then some (s.answer c r (.error laneClosedError)) else none
      | _ => none
  | .clone c source =>
      if c ∉ s.holders ∧ source.elim s.owner (· ∈ s.holders) then
        some { s.setCaller c .idle with holders := insert c s.holders }
      else none
  | .release c =>
      match s.callers c with
      | .idle => some { s with holders := s.holders.erase c }
      | _ => none
  | .dropOwner => some { s with owner := false }
  | .exit =>
      match s.task, s.queue with
      | .receiving, none =>
          if s.owner = false ∧ s.holders = ∅ then some { s with task := .exited } else none
      | _, _ => none

end WriterLane

/-! ### Where the requests are -/

/-- What holds of a lane at all times. -/
structure LaneInv (s : WriterLane) : Prop where
  order : ∃ lost, s.accepted =
      s.performed.map Prod.fst ++ (s.task.current ++ (s.queue.toList ++ lost)) ∧
    (s.task ≠ .panicked → lost = [])
  fresh : ∀ r ∈ s.accepted, r.id < s.nextId
  nodup : (s.accepted.map LaneRequest.id).Nodup
  sending : ∀ c r, s.callers c = .sending r → r.id < s.nextId ∧
    (∀ r' ∈ s.accepted, r'.id ≠ r.id) ∧
      ∀ c' r', s.callers c' = .sending r' → r'.id = r.id → c' = c
  awaiting : ∀ c r, s.callers c = .awaiting r → r ∈ s.accepted
  acking : ∀ r result, s.task = .acking r result → (r, result) ∈ s.performed
  answered : ∀ c r result, s.callers c = .answered r result → (r, result) ∈ s.performed
  held : ∀ c, s.callers c ≠ .idle → c ∈ s.holders
  exited : s.task = .exited → s.owner = false ∧ s.holders = ∅ ∧ s.queue = none
  answers : ∀ a ∈ s.answers, a ∈ s.performed ∨
    a.2 = .error laneClosedError ∧ s.task = .panicked

namespace LaneInv

variable {s s' : WriterLane} {c : ℕ} {r : LaneRequest} {result : Except DownloadError Unit}

theorem spawn (holders : Finset ℕ) : LaneInv (.spawn holders) where
  order := ⟨[], rfl, fun _ => rfl⟩
  fresh := fun _ h => absurd h List.not_mem_nil
  nodup := List.nodup_nil
  sending := nofun
  awaiting := nofun
  acking := nofun
  answered := nofun
  held := fun _ h => absurd rfl h
  exited := nofun
  answers := fun _ h => absurd h List.not_mem_nil

/-- A caller in another phase than before is the one that moved. -/
theorem caller_of_ne {p q : LaneCaller} {c' : ℕ} (h : (s.setCaller c p).callers c' = q)
    (hpq : p ≠ q) : s.callers c' = q ∧ c' ≠ c := by
  have hupdate : Function.update s.callers c p c' = q := h
  by_cases hc : c' = c
  · rw [hc, Function.update_self] at hupdate
    exact absurd hupdate hpq
  · rw [Function.update_of_ne hc] at hupdate
    exact ⟨hupdate, hc⟩

/-- The call of a caller is over, or dropped. -/
theorem idle (h : LaneInv s) (c : ℕ) : LaneInv (s.setCaller c .idle) where
  order := h.order
  fresh := h.fresh
  nodup := h.nodup
  sending := fun c' r hc => by
    obtain ⟨hlt, hnew, hone⟩ := h.sending c' r (caller_of_ne hc nofun).1
    exact ⟨hlt, hnew, fun c'' r' hc' => hone c'' r' (caller_of_ne hc' nofun).1⟩
  awaiting := fun c' r hc => h.awaiting c' r (caller_of_ne hc nofun).1
  acking := h.acking
  answered := fun c' r result hc => h.answered c' r result (caller_of_ne hc nofun).1
  held := fun c' hc => by
    refine h.held c' fun hidle => hc ?_
    show Function.update s.callers c .idle c' = .idle
    rw [Function.update_apply, hidle, ite_self]
  exited := h.exited
  answers := h.answers

theorem answer (h : LaneInv s) (ha : (r, result) ∈ s.performed ∨
    result = .error laneClosedError ∧ s.task = .panicked) : LaneInv (s.answer c r result) :=
  { h.idle c with
    answers := fun a hmem => by
      rcases List.mem_append.mp hmem with hold | hnew
      · exact h.answers a hold
      · rw [List.mem_singleton.mp hnew]
        exact ha }

/-- A caller that holds a handle finds the lane open, or crashed. -/
theorem panicked_of_closed (h : LaneInv s) (hc : s.callers c ≠ .idle)
    (hclosed : s.task.closed = true) : s.task = .panicked := by
  rcases htask : s.task with - | r | ⟨r, result⟩ | - | -
  · rw [htask] at hclosed
    cases hclosed
  · rw [htask] at hclosed
    cases hclosed
  · rw [htask] at hclosed
    cases hclosed
  · have hheld := h.held c hc
    rw [(h.exited htask).2.1] at hheld
    exact absurd hheld (Finset.notMem_empty c)
  · rfl

/-- A submission waits for its place in the channel. -/
theorem submit (h : LaneInv s) {offset : UInt64} {data : List UInt8}
    (hs : s.step (.submit c offset data) = some s') : LaneInv s' := by
  rw [WriterLane.step] at hs
  split at hs
  · next hidle =>
    split_ifs at hs with hc
    cases hs
    have hphase : ∀ {c' : ℕ} {q : LaneCaller},
        Function.update s.callers c (.sending ⟨s.nextId, offset, data⟩) c' = q →
        c' = c ∧ q = .sending ⟨s.nextId, offset, data⟩ ∨ c' ≠ c ∧ s.callers c' = q := by
      intro c' q hq
      by_cases hc' : c' = c
      · rw [hc', Function.update_self] at hq
        exact .inl ⟨hc', hq.symm⟩
      · rw [Function.update_of_ne hc'] at hq
        exact .inr ⟨hc', hq⟩
    exact
      { order := h.order
        fresh := fun r hr => Nat.lt_succ_of_lt (h.fresh r hr)
        nodup := h.nodup
        sending := fun c' r hr => by
          rcases hphase hr with ⟨rfl, hnew⟩ | ⟨hne, hold⟩
          · cases hnew
            refine ⟨Nat.lt_succ_self _, fun r' hr' => (h.fresh r' hr').ne, fun c'' r' hr' hid => ?_⟩
            rcases hphase hr' with ⟨rfl, -⟩ | ⟨-, hold'⟩
            · rfl
            · exact absurd hid (h.sending c'' r' hold').1.ne
          · obtain ⟨hlt, hnew, hone⟩ := h.sending c' r hold
            refine ⟨Nat.lt_succ_of_lt hlt, hnew, fun c'' r' hr' hid => ?_⟩
            rcases hphase hr' with ⟨rfl, hnew'⟩ | ⟨-, hold'⟩
            · cases hnew'
              exact absurd hid.symm hlt.ne
            · exact hone c'' r' hold' hid
        awaiting := fun c' r hr => by
          rcases hphase hr with ⟨-, hnew⟩ | ⟨-, hold⟩
          · cases hnew
          · exact h.awaiting c' r hold
        acking := h.acking
        answered := fun c' r result hr => by
          rcases hphase hr with ⟨-, hnew⟩ | ⟨-, hold⟩
          · cases hnew
          · exact h.answered c' r result hold
        held := fun c' hne => by
          by_cases hc' : c' = c
          · rw [hc']
            exact hc
          · refine h.held c' fun hidle' => hne ?_
            exact (Function.update_of_ne hc' _ _).trans hidle'
        exited := h.exited
        answers := h.answers }
  · cases hs

/-- **A write that is sent is accepted**, and performed behind the earlier ones. -/
theorem send (h : LaneInv s) (hs : s.step (.send c) = some s') : LaneInv s' := by
  rw [WriterLane.step] at hs
  split at hs
  · next r hsending hqueue =>
    split_ifs at hs with hclosed
    cases hs
    obtain ⟨hlt, hnew, hone⟩ := h.sending c r hsending
    have hpanicked : s.task ≠ .panicked := fun heq => hclosed (by rw [heq]; rfl)
    exact
      { order := by
          obtain ⟨lost, horder, hlost⟩ := h.order
          refine ⟨[], ?_, fun _ => rfl⟩
          show s.accepted ++ [r] = s.performed.map Prod.fst ++ (s.task.current ++ ([r] ++ []))
          rw [horder, hlost hpanicked, hqueue]
          simp only [Option.toList_none, List.append_nil, List.append_assoc]
        fresh := fun r' hr' => by
          rcases List.mem_append.mp hr' with hold | hself
          · exact h.fresh r' hold
          · rw [List.mem_singleton.mp hself]
            exact hlt
        nodup := by
          rw [List.map_append, List.nodup_append]
          refine ⟨h.nodup, List.nodup_singleton _, fun i hi j hj => ?_⟩
          obtain ⟨r', hr', rfl⟩ := List.mem_map.mp hi
          rw [List.mem_singleton.mp hj]
          exact hnew r' hr'
        sending := fun c' r' hc' => by
          obtain ⟨hold, hne⟩ := caller_of_ne hc' nofun
          obtain ⟨hlt', hnew', hone'⟩ := h.sending c' r' hold
          refine ⟨hlt', fun r'' hr'' => ?_,
            fun c'' r'' hc'' => hone' c'' r'' (caller_of_ne hc'' nofun).1⟩
          rcases List.mem_append.mp hr'' with hmem | hself
          · exact hnew' r'' hmem
          · rw [List.mem_singleton.mp hself]
            exact fun hid => hne (hone c' r' hold hid.symm)
        awaiting := fun c' r' hc' => by
          by_cases hne : c' = c
          · have hself : Function.update s.callers c (.awaiting r) c' = .awaiting r' := hc'
            rw [hne, Function.update_self] at hself
            cases hself
            exact List.mem_append_right _ List.mem_cons_self
          · have hother : Function.update s.callers c (.awaiting r) c' = .awaiting r' := hc'
            rw [Function.update_of_ne hne] at hother
            exact List.mem_append_left _ (h.awaiting c' r' hother)
        acking := h.acking
        answered := fun c' r' result hc' => h.answered c' r' result (caller_of_ne hc' nofun).1
        held := fun c' hne => by
          by_cases hc' : c' = c
          · rw [hc']
            exact h.held c (by rw [hsending]; nofun)
          · refine h.held c' fun hidle => hne ?_
            show Function.update s.callers c (.awaiting r) c' = .idle
            rw [Function.update_of_ne hc', hidle]
        exited := fun heq =>
          absurd (congrArg LaneTask.closed (show s.task = .exited from heq)) hclosed
        answers := h.answers }
  · cases hs

theorem receive (h : LaneInv s) (hs : s.step .receive = some s') : LaneInv s' := by
  rw [WriterLane.step] at hs
  split at hs
  · next r htask hqueue =>
    cases hs
    obtain ⟨lost, horder, hlost⟩ := h.order
    rw [htask, hqueue] at horder
    rw [htask] at hlost
    exact { h with
      order := ⟨lost, horder, fun _ => hlost nofun⟩
      acking := nofun
      exited := nofun
      answers := fun a ha => (h.answers a ha).imp_right fun hp => by
        rw [htask] at hp
        cases hp.2 }
  · cases hs

/-- **The write that is performed is the first of the queue.** -/
theorem perform (h : LaneInv s) (hs : s.step (.perform result) = some s') : LaneInv s' := by
  rw [WriterLane.step] at hs
  split at hs
  · next r htask =>
    cases hs
    obtain ⟨lost, horder, hlost⟩ := h.order
    rw [htask] at horder hlost
    exact { h with
      order := ⟨lost, by
        show s.accepted =
          (s.performed ++ [(r, result)]).map Prod.fst ++ ([] ++ (s.queue.toList ++ lost))
        rw [horder, List.map_append, List.append_assoc]
        rfl, fun _ => hlost nofun⟩
      acking := fun r' result' heq => by
        cases heq
        exact List.mem_append_right _ List.mem_cons_self
      answered := fun c' r' result' hc' => List.mem_append_left _ (h.answered c' r' result' hc')
      exited := nofun
      answers := fun a ha => by
        rcases h.answers a ha with hp | hp
        · exact .inl (List.mem_append_left _ hp)
        · rw [htask] at hp
          cases hp.2 }
  · cases hs

theorem crash (h : LaneInv s) (hs : s.step .crash = some s') : LaneInv s' := by
  have hcrash : s' = { s with task := .panicked, queue := none } := by
    rw [WriterLane.step] at hs
    split at hs <;> cases hs <;> rfl
  subst hcrash
  obtain ⟨lost, horder, -⟩ := h.order
  exact { h with
    order := ⟨_, horder, fun hne => absurd rfl hne⟩
    acking := nofun
    exited := nofun
    answers := fun a ha => (h.answers a ha).imp_right fun hp => ⟨hp.1, rfl⟩ }

/-- An accepted request is known by its number. -/
theorem eq_of_id (h : LaneInv s) {r r' : LaneRequest} (hr : r ∈ s.accepted)
    (hr' : r' ∈ s.accepted) (hid : r'.id = r.id) : r' = r :=
  List.inj_on_of_nodup_map h.nodup hr' hr hid

theorem mem_of_performed (h : LaneInv s) (hr : (r, result) ∈ s.performed) : r ∈ s.accepted := by
  obtain ⟨lost, horder, -⟩ := h.order
  rw [horder]
  exact List.mem_append_left _ (List.mem_map_of_mem hr)

/-- The acknowledgement goes to whoever has sent the write. -/
theorem acknowledge (h : LaneInv s) (hs : s.step .acknowledge = some s') : LaneInv s' := by
  rw [WriterLane.step] at hs
  split at hs
  · next r result htask =>
    cases hs
    have hperformed := h.acking r result htask
    have hphase : ∀ {p q : LaneCaller}, WriterLane.acknowledged r result p = q →
        p = q ∨ ∃ r', p = .awaiting r' ∧ r'.id = r.id ∧ q = .answered r' result := by
      intro p q hq
      cases p with
      | awaiting r' =>
        rw [WriterLane.acknowledged] at hq
        split_ifs at hq with hid
        · exact .inr ⟨r', rfl, hid, hq.symm⟩
        · exact .inl hq
      | _ => exact .inl hq
    obtain ⟨lost, horder, hlost⟩ := h.order
    rw [htask] at horder hlost
    exact { h with
      order := ⟨lost, horder, fun _ => hlost nofun⟩
      sending := fun c' r' hc' => by
        rcases hphase hc' with hold | ⟨r'', -, -, hq⟩
        · obtain ⟨hlt, hnew, hone⟩ := h.sending c' r' hold
          refine ⟨hlt, hnew, fun c'' r'' hc'' hid => ?_⟩
          rcases hphase hc'' with hold' | ⟨r₂, -, -, hq⟩
          · exact hone c'' r'' hold' hid
          · cases hq
        · cases hq
      awaiting := fun c' r' hc' => by
        rcases hphase hc' with hold | ⟨r'', -, -, hq⟩
        · exact h.awaiting c' r' hold
        · cases hq
      acking := nofun
      answered := fun c' r' result' hc' => by
        rcases hphase hc' with hold | ⟨r'', hold, hid, hq⟩
        · exact h.answered c' r' result' hold
        · cases hq
          rw [h.eq_of_id (h.mem_of_performed hperformed) (h.awaiting c' _ hold) hid]
          exact hperformed
      held := fun c' hne => h.held c' fun hidle => hne (by
        show WriterLane.acknowledged r result (s.callers c') = .idle
        rw [hidle]
        rfl)
      exited := nofun
      answers := fun a ha => (h.answers a ha).imp_right fun hp => by
        rw [htask] at hp
        cases hp.2 }
  · cases hs

theorem exit (h : LaneInv s) (hs : s.step .exit = some s') : LaneInv s' := by
  rw [WriterLane.step] at hs
  split at hs
  · next htask hqueue =>
    split_ifs at hs with hgone
    cases hs
    obtain ⟨lost, horder, hlost⟩ := h.order
    rw [htask] at horder hlost
    exact { h with
      order := ⟨lost, horder, fun _ => hlost nofun⟩
      acking := nofun
      exited := fun _ => ⟨hgone.1, hgone.2, hqueue⟩
      answers := fun a ha => (h.answers a ha).imp_right fun hp => by
        rw [htask] at hp
        cases hp.2 }
  · cases hs

/-- Where a sender is, the lane has not left. -/
theorem not_exited {holders : Finset ℕ} {owner : Bool} (h : LaneInv s)
    (hopen : s.owner = true ∨ s.holders.Nonempty) :
    s.task = .exited → owner = false ∧ holders = ∅ ∧ s.queue = none := by
  intro htask
  obtain ⟨howner, hholders, -⟩ := h.exited htask
  rcases hopen with hopen | ⟨c, hc⟩
  · rw [howner] at hopen
    cases hopen
  · rw [hholders] at hc
    exact absurd hc (Finset.notMem_empty c)

theorem clone (h : LaneInv s) {source : Option ℕ} (hs : s.step (.clone c source) = some s') :
    LaneInv s' := by
  rw [WriterLane.step] at hs
  split_ifs at hs with hclone
  cases hs
  refine { h.idle c with
    held := fun c' hc' => Finset.mem_insert_of_mem ((h.idle c).held c' hc')
    exited := h.not_exited ?_ }
  rcases source with - | c'
  · exact .inl hclone.2
  · exact .inr ⟨c', of_decide_eq_true hclone.2⟩

theorem release (h : LaneInv s) (hs : s.step (.release c) = some s') : LaneInv s' := by
  rw [WriterLane.step] at hs
  split at hs
  · next hidle =>
    cases hs
    exact { h with
      held := fun c' hc' => Finset.mem_erase.mpr
        ⟨fun heq => hc' (heq ▸ hidle), h.held c' hc'⟩
      exited := fun htask => by
        obtain ⟨howner, hholders, hqueue⟩ := h.exited htask
        exact ⟨howner, by show s.holders.erase c = ∅; rw [hholders]; rfl, hqueue⟩ }
  · cases hs

/-- **Every step keeps what holds of a lane.** -/
theorem step {e : LaneEvent} (h : LaneInv s) (hs : s.step e = some s') : LaneInv s' := by
  cases e with
  | submit c offset data => exact h.submit hs
  | send c => exact h.send hs
  | refuse c =>
    rw [WriterLane.step] at hs
    split at hs
    · next r hsending =>
      split_ifs at hs with hclosed
      cases hs
      exact h.answer (.inr ⟨rfl, h.panicked_of_closed (by rw [hsending]; nofun) hclosed⟩)
    · cases hs
  | cancel c =>
    cases hs
    exact h.idle c
  | receive => exact h.receive hs
  | perform result => exact h.perform hs
  | crash => exact h.crash hs
  | acknowledge => exact h.acknowledge hs
  | wake c =>
    rw [WriterLane.step] at hs
    split at hs
    · next r result hanswered =>
      cases hs
      exact h.answer (.inl (h.answered c r result hanswered))
    · cases hs
  | fail c =>
    rw [WriterLane.step] at hs
    split at hs
    · next r hawaiting =>
      split_ifs at hs with hclosed
      cases hs
      exact h.answer (.inr ⟨rfl, h.panicked_of_closed (by rw [hawaiting]; nofun) hclosed⟩)
    · cases hs
  | clone c source => exact h.clone hs
  | release c => exact h.release hs
  | dropOwner =>
    cases hs
    exact { h with exited := fun htask => ⟨rfl, (h.exited htask).2⟩ }
  | exit => exact h.exit hs

/-- It holds in every run. -/
theorem reach {holders : Finset ℕ}
    (h : Reach WriterLane.step (fun _ _ => True) (· = .spawn holders) s) : LaneInv s :=
  h.invariant (fun _ h₀ => h₀ ▸ spawn holders) fun _ _ _ hinv _ hs => hinv.step hs

end LaneInv

/-! ### Shutdown -/

namespace WriterLane

/-- Some steps take the lane out of its loop. -/
def CanLeave (s : WriterLane) : Prop :=
  ∃ es s', runEvents step s es = some s' ∧ s'.task = .exited

/-- A lane that can leave after a step can leave before it. -/
theorem CanLeave.of_step {s s' : WriterLane} {e : LaneEvent} (hs : s.step e = some s')
    (h : s'.CanLeave) : s.CanLeave := by
  obtain ⟨es, t, hrun, ht⟩ := h
  exact ⟨e :: es, t, by rw [runEvents, hs]; exact hrun, ht⟩

variable {s : WriterLane}

theorem leaves_empty (howner : s.owner = false) (hholders : s.holders = ∅)
    (htask : s.task = .receiving) (hqueue : s.queue = none) : s.CanLeave := by
  have hexit : s.step .exit = some { s with task := .exited } := by
    rw [step, htask, hqueue]
    exact if_pos ⟨howner, hholders⟩
  exact .of_step hexit ⟨[], _, rfl, rfl⟩

theorem leaves_acking {r : LaneRequest} {result : Except DownloadError Unit}
    (howner : s.owner = false) (hholders : s.holders = ∅) (htask : s.task = .acking r result)
    (hnext : ∀ t : WriterLane, t.owner = false → t.holders = ∅ → t.task = .receiving →
      t.queue = s.queue → t.CanLeave) : s.CanLeave := by
  have hack : s.step .acknowledge = some { s with
      task := .receiving, callers := fun c => acknowledged r result (s.callers c) } := by
    rw [step, htask]
  exact .of_step hack (hnext _ howner hholders rfl rfl)

theorem leaves_writing {r : LaneRequest} (howner : s.owner = false) (hholders : s.holders = ∅)
    (htask : s.task = .writing r)
    (hnext : ∀ t : WriterLane, t.owner = false → t.holders = ∅ → t.task = .receiving →
      t.queue = s.queue → t.CanLeave) : s.CanLeave := by
  have hperform : s.step (.perform (.ok ())) = some { s with
      task := .acking r (.ok ()), performed := s.performed ++ [(r, .ok ())] } := by
    rw [step, htask]
  exact .of_step hperform (leaves_acking howner hholders rfl hnext)

theorem leaves_receiving (howner : s.owner = false) (hholders : s.holders = ∅)
    (htask : s.task = .receiving) : s.CanLeave := by
  rcases hqueue : s.queue with - | r
  · exact leaves_empty howner hholders htask hqueue
  · have hreceive : s.step .receive = some { s with task := .writing r, queue := none } := by
      rw [step, htask, hqueue]
    refine .of_step hreceive (leaves_writing howner hholders rfl fun t ho hh ht hq => ?_)
    exact leaves_empty ho hh ht hq

/-- Nothing keeps a lane from leaving once its senders are gone. -/
theorem canLeave (howner : s.owner = false) (hholders : s.holders = ∅)
    (hpanicked : s.task ≠ .panicked) : s.CanLeave := by
  have hnext : ∀ t : WriterLane, t.owner = false → t.holders = ∅ → t.task = .receiving →
      t.queue = s.queue → t.CanLeave := fun t ho hh ht _ => leaves_receiving ho hh ht
  cases htask : s.task with
  | receiving => exact leaves_receiving howner hholders htask
  | writing r => exact leaves_writing howner hholders htask hnext
  | acking r result => exact leaves_acking howner hholders htask hnext
  | exited => exact ⟨[], s, rfl, htask⟩
  | panicked => exact absurd htask hpanicked

end WriterLane

/-- **A lane writes what it accepts once and in order**: what it has performed
is the beginning of what it has accepted, all but two requests of it as long as
no write panics.  A call that returns has been performed with that result, or
the lane has failed.  A lane that has left has performed everything, and unless
it fails it can leave when its senders are gone. -/
theorem lane_exactly_once {holders : Finset ℕ} {s : WriterLane}
    (h : Reach WriterLane.step (fun _ _ => True) (· = .spawn holders) s) :
    (s.accepted.map LaneRequest.id).Nodup ∧
      s.performed.map Prod.fst <+: s.accepted ∧
      (s.task ≠ .panicked → s.accepted.length ≤ s.performed.length + 2) ∧
      (∀ a ∈ s.answers, a ∈ s.performed ∨
        a.2 = .error laneClosedError ∧ s.task = .panicked) ∧
      (s.task = .exited → s.performed.map Prod.fst = s.accepted ∧ s.owner = false ∧
        s.holders = ∅ ∧ ∀ c, s.callers c = .idle) ∧
      (s.owner = false → s.holders = ∅ → s.task ≠ .panicked → s.CanLeave) := by
  have hinv := LaneInv.reach h
  obtain ⟨lost, horder, hlost⟩ := hinv.order
  refine ⟨hinv.nodup, ⟨_, horder.symm⟩, fun hpanicked => ?_, hinv.answers, fun htask => ?_,
    WriterLane.canLeave⟩
  · have hcurrent : s.task.current.length ≤ 1 := by
      cases s.task <;> simp [LaneTask.current]
    have hqueue : s.queue.toList.length ≤ 1 := by
      cases s.queue <;> simp
    rw [horder, hlost hpanicked]
    simp only [List.length_append, List.length_map, List.length_nil]
    omega
  · obtain ⟨howner, hholders, hqueue⟩ := hinv.exited htask
    refine ⟨?_, howner, hholders, fun c => ?_⟩
    · rw [horder, hlost (by rw [htask]; nofun), htask, hqueue]
      simp [LaneTask.current]
    · by_contra hc
      have hheld := hinv.held c hc
      rw [hholders] at hheld
      exact absurd hheld (Finset.notMem_empty c)

/-- One worker writes a chunk, and the lane is shut down while it is queued. -/
def shutdownRun : List LaneEvent :=
  [.submit 0 0 [1], .send 0, .dropOwner, .receive, .perform (.ok ()), .acknowledge, .wake 0,
    .release 0, .exit]

/-- The write that was accepted is performed once. -/
theorem lane_exactly_once_shutdownRun : ∃ s,
    runEvents WriterLane.step (.spawn {0}) shutdownRun = some s ∧
      s.performed.map Prod.fst = s.accepted ∧ s.accepted = [⟨0, 0, [1]⟩] := by
  obtain ⟨s, hs, htask, haccepted⟩ : ∃ s,
      runEvents WriterLane.step (.spawn {0}) shutdownRun = some s ∧ s.task = .exited ∧
        s.accepted = [⟨0, 0, [1]⟩] := ⟨_, rfl, rfl, rfl⟩
  have hreach : Reach WriterLane.step (fun _ _ => True) (· = .spawn {0}) s :=
    .of_run (.start rfl) runOk_true hs
  exact ⟨s, hs, ((lane_exactly_once hreach).2.2.2.2.1 htask).1, haccepted⟩

end KDown
