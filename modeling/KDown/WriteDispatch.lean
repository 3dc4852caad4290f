/-
KDown/WriteDispatch.lean

The order in which the write executor dispatches writes (`take_next` in
io/write_executor.rs).

Beside the executor there are two logs, of the writes that entered a queue and
of those that a thread took; no step reads them.  What a session has in its
queue is what it has in the first and not in the second (`Ordered`).

The cursor is an index into the registry, and stands for the turn order
`registry.rotate cursor`.  Who has just been served is last in it, and a
dispatch serves the first that has a write.  A session that enters or leaves
moves the others under the cursor, and the order may change: `TurnsKept` is the
condition that no waiting session is moved behind one that was after it.
-/
import KDown.WriteExecutorInv
import KDown.TurnOrder

namespace KDown

/-- The write the thread has just taken, with its session. -/
def WriterPhase.taken : WriterPhase → Option (ℕ × QueuedWrite)
  | .executing id item => some (id, item)
  | _ => none

namespace WriteExecutor

variable {s s' : WriteExecutor} {e : ExecutorEvent} {x y : ℕ}

/-! ### Turns -/

/-- The sessions in the order in which the cursor comes to them. -/
def turns (s : WriteExecutor) : List ℕ := (s.sessions.map SessionEntry.id).rotate s.cursor

/-- The session is attached and has a queued write. -/
def Waits (s : WriteExecutor) (id : ℕ) : Prop := ∃ x ∈ s.sessions, x.id = id ∧ x.queue ≠ []

instance (s : WriteExecutor) (id : ℕ) : Decidable (s.Waits id) :=
  inferInstanceAs (Decidable (∃ x ∈ s.sessions, x.id = id ∧ x.queue ≠ []))

/-- The sessions once an event has attached one or let one leave. -/
def registryAfter (s : WriteExecutor) : ExecutorEvent → List ℕ
  | .session _ => s.sessions.map SessionEntry.id ++ [s.nextSessionId]
  | .detachNext d =>
      if (s.detaches d).phase = .leaving then
        (s.sessions.map SessionEntry.id).filter (· ≠ (s.detaches d).session)
      else s.sessions.map SessionEntry.id
  | _ => s.sessions.map SessionEntry.id

/-- A waiting session stays ahead of those it was ahead of. -/
def TurnsKept (s : WriteExecutor) (e : ExecutorEvent) : Prop :=
  ∀ y ∈ s.registryAfter e, s.Waits y → ∀ x ∈ s.turns, Ahead s.turns y x →
    Ahead ((s.registryAfter e).rotate s.cursor) y x

instance (s : WriteExecutor) (e : ExecutorEvent) : Decidable (s.TurnsKept e) :=
  inferInstanceAs (Decidable (∀ y ∈ s.registryAfter e, s.Waits y → ∀ x ∈ s.turns,
    Ahead s.turns y x → Ahead ((s.registryAfter e).rotate s.cursor) y x))

/-! ### What a step does to the registry -/

/-- The write that entered a queue in a step. -/
def enqueuedBy (s s' : WriteExecutor) : ExecutorEvent → Option (ℕ × QueuedWrite)
  | .submitNext i =>
      if (s.submits i).phase = .enqueueing ∧ (s'.submits i).phase = .notifying then
        some ((s.submits i).session, s.item i)
      else none
  | _ => none

/-- The write that a thread took in a step. -/
def dispatchedBy (s s' : WriteExecutor) : ExecutorEvent → Option (ℕ × QueuedWrite)
  | .work w => if s.worker w = .scanning then (s'.worker w).taken else none
  | _ => none

/-- What a step that takes no write does to an entry. -/
inductive Touched (x x' : SessionEntry) : Option QueuedWrite → Prop
  | settled (h : x'.queue = x.queue) (hopen : x'.closed = x.closed) : Touched x x' none
  | closed (h : x'.queue <+: x.queue) (hclosed : x'.closed = true) : Touched x x' none
  | pushed (item : QueuedWrite) (h : x'.queue = x.queue ++ [item]) (hopen : x.closed = false)
      (hopen' : x'.closed = false) : Touched x x' (some item)

/-- A queue that a step other than a dispatch changes. -/
theorem Touched.queue {x x' : SessionEntry} {item : Option QueuedWrite} (ht : Touched x x' item)
    {dispatched enqueued : List QueuedWrite} (hqueued : dispatched ++ x.queue <+: enqueued)
    (hwhole : x.closed = false → enqueued = dispatched ++ x.queue) :
    dispatched ++ x'.queue <+: enqueued ++ item.toList ∧
      (x'.closed = false → enqueued ++ item.toList = dispatched ++ x'.queue) := by
  cases ht with
  | settled hq hopen =>
    rw [hq, hopen, Option.toList_none, List.append_nil]
    exact ⟨hqueued, hwhole⟩
  | closed hq hclosed =>
    rw [hclosed, Option.toList_none, List.append_nil]
    exact ⟨((List.prefix_append_right_inj _).mpr hq).trans hqueued, nofun⟩
  | pushed item hq hopen _ =>
    rw [hq, hwhole hopen, Option.toList_some, List.append_assoc]
    exact ⟨List.prefix_refl _, fun _ => rfl⟩

/-- What a step does to the registry, with the write that entered a queue and
the one that was taken. -/
inductive RegistryStep (s s' : WriteExecutor) (e : ExecutorEvent) :
    Option (ℕ × QueuedWrite) → Option (ℕ × QueuedWrite) → Prop
  | same (hset : s'.sessions = s.sessions) (hcursor : s'.cursor = s.cursor)
      (hnext : s'.nextSessionId = s.nextSessionId)
      (hafter : s.registryAfter e = s.sessions.map SessionEntry.id) : RegistryStep s s' e none none
  | touch {index : ℕ} {x x' : SessionEntry} {item : Option QueuedWrite}
      {pushed : Option (ℕ × QueuedWrite)} (hx : s.sessions[index]? = some x)
      (hset : s'.sessions = s.sessions.set index x') (htouch : Touched x x' item)
      (hpushed : pushed = item.map (x.id, ·)) (hid : x'.id = x.id) (hcursor : s'.cursor = s.cursor)
      (hnext : s'.nextSessionId = s.nextSessionId)
      (hafter : s.registryAfter e = s.sessions.map SessionEntry.id) : RegistryStep s s' e pushed none
  | take {index : ℕ} {x : SessionEntry} {item : QueuedWrite} {rest : List QueuedWrite}
      {l₁ l₂ : List SessionEntry} (hx : s.sessions[index]? = some x) (hq : x.queue = item :: rest)
      (hset : s'.sessions = s.sessions.set index
        { x with queue := rest, executing := x.executing + 1 })
      (hturn : s.sessions.rotate s.cursor = l₁ ++ x :: l₂) (hidle : ∀ y ∈ l₁, y.queue = [])
      (hserved : s.sessions.rotate s'.cursor = l₂ ++ (l₁ ++ [x]))
      (hnext : s'.nextSessionId = s.nextSessionId) : RegistryStep s s' e none (some (x.id, item))
  | attach {x : SessionEntry} (hid : x.id = s.nextSessionId) (hq : x.queue = [])
      (hset : s'.sessions = s.sessions ++ [x]) (hcursor : s'.cursor = s.cursor)
      (hnext : s'.nextSessionId = s.nextSessionId + 1)
      (hafter : s.registryAfter e = s'.sessions.map SessionEntry.id) : RegistryStep s s' e none none
  | leave (hset : s'.sessions.Sublist s.sessions) (hcursor : s'.cursor = s.cursor)
      (hnext : s'.nextSessionId = s.nextSessionId)
      (hafter : s.registryAfter e = s'.sessions.map SessionEntry.id) : RegistryStep s s' e none none
  | clear (hset : s'.sessions = []) (hnext : s'.nextSessionId = s.nextSessionId) :
      RegistryStep s s' e none none

/-- A call moves to a phase in which it has not enqueued just now. -/
theorem RegistryStep.of_phase {i : ℕ} (hset : s'.sessions = s.sessions)
    (hcursor : s'.cursor = s.cursor) (hnext : s'.nextSessionId = s.nextSessionId)
    (hph : (s.submits i).phase ≠ .enqueueing ∨ (s'.submits i).phase ≠ .notifying) :
    RegistryStep s s' (.submitNext i) (s.enqueuedBy s' (.submitNext i)) none := by
  rw [enqueuedBy, if_neg fun h => hph.elim (· h.1) (· h.2)]
  exact .same hset hcursor hnext rfl

theorem registryAfter_detach {d : ℕ} (h : (s.detaches d).phase ≠ .leaving) :
    s.registryAfter (.detachNext d) = s.sessions.map SessionEntry.id := if_neg h

/-- A thread that does not look for a write. -/
theorem ThreadStep.registryStep {w : ℕ} (h : ThreadStep s w s') (hno : s.worker w ≠ .scanning)
    (hafter : s.registryAfter e = s.sessions.map SessionEntry.id) :
    RegistryStep s s' e none none := by
  cases h with
  | take hph _ _ => exact absurd hph hno
  | noWork hph _ => exact absurd hph hno
  | @settle id _ _ =>
    rcases countDown_cases s id with ⟨heq, -⟩ | ⟨index, x, hx, -, heq⟩
    · rw [heq]
      exact .same rfl rfl rfl hafter
    · rw [heq]
      exact .touch hx rfl (.settled rfl rfl) rfl rfl rfl rfl hafter
  | _ => exact .same rfl rfl rfl hafter

/-- A thread that looks for a write serves the first in turn that has one. -/
theorem registryStep_scan {w : ℕ} (hph : s.worker w = .scanning) (h : s.step (.work w) = some s') :
    RegistryStep s s' (.work w) none (s.dispatchedBy s' (.work w)) := by
  simp only [step, hph, workerStep] at h
  rw [dispatchedBy, if_pos hph]
  split_ifs at h
  split at h
  · next index hpick =>
    obtain ⟨l₁, x, l₂, hturn, hidle, hx, hserved⟩ := scan_spec hpick
    simp only [WriteExecutor.take, hx] at h
    split at h
    · cases h
    · next item rest hq =>
      cases h
      have htaken : (Function.update s.worker w (.executing x.id item) w).taken =
          some (x.id, item) := by
        rw [Function.update_self]
        rfl
      show RegistryStep s _ (.work w) none (Function.update s.worker w _ w).taken
      rw [htaken]
      exact .take hx hq rfl hturn (fun y hy => by simpa using hidle y hy) hserved rfl
  · cases h
    have hnone : (Function.update s.worker w .checking w).taken = none := by
      rw [Function.update_self]
      rfl
    show RegistryStep s _ (.work w) none (Function.update s.worker w _ w).taken
    rw [hnone]
    exact .same rfl rfl rfl rfl

/-- Calls dispatch nothing. -/
theorem CallStep.registryStep (h : CallStep s e s') :
    RegistryStep s s' e (s.enqueuedBy s' e) none := by
  cases h with
  | session job hfree h => exact .attach rfl rfl rfl rfl rfl (by simp [registryAfter])
  | executorHandle he n => rcases he with rfl | rfl <;> exact .same rfl rfl rfl rfl
  | sessionHandle he h n => rcases he with rfl | rfl <;> exact .same rfl rfl rfl rfl
  | reject h => exact .of_phase rfl rfl rfl (.inl (by rw [h]; nofun))
  | begin h hopen => exact .of_phase rfl rfl rfl (.inl (by rw [h]; nofun))
  | acquire h => exact .of_phase rfl rfl rfl (.inl (by rw [h]; nofun))
  | @enqueue i index x h hfree hx hid hopen =>
    have hphase : (((s.setSession index { x with queue := x.queue ++ [s.item i] }).setSubmit i
        .notifying).submits i).phase = .notifying := by
      show (Function.update s.submits i _ i).phase = _
      rw [Function.update_self]
    rw [enqueuedBy, if_pos ⟨h, hphase⟩, ← hid]
    exact .touch hx rfl (.pushed (s.item i) rfl hopen hopen) rfl rfl rfl rfl rfl
  | @refuse i h =>
    refine .of_phase rfl rfl rfl (.inr ?_)
    show (Function.update s.submits i _ i).phase ≠ _
    rw [Function.update_self]
    nofun
  | refund h => exact .of_phase rfl rfl rfl (.inl (by rw [h]; nofun))
  | closeAbsent h hnone =>
    exact .same rfl rfl rfl (registryAfter_detach (by rw [h]; nofun))
  | closeDiscard h hfree hx hid =>
    exact .touch hx rfl (.closed List.nil_prefix rfl) rfl rfl rfl rfl
      (registryAfter_detach (by rw [h]; nofun))
  | closeDrain h hfree hx hid =>
    exact .touch hx rfl (.closed (List.prefix_refl _) rfl) rfl rfl rfl rfl
      (registryAfter_detach (by rw [h]; nofun))
  | settled h hset => exact .same rfl rfl rfl (registryAfter_detach (by rw [h]; nofun))
  | remove h =>
    refine .leave List.filter_sublist rfl rfl ?_
    rw [registryAfter, if_pos h, List.filter_map]
    rfl
  | clear h => exact .clear rfl rfl
  | _ => exact .same rfl rfl rfl rfl

/-- **What a step does to the registry.** -/
theorem registryStep_of_step (h : s.step e = some s') :
    RegistryStep s s' e (s.enqueuedBy s' e) (s.dispatchedBy s' e) := by
  rcases he : e.thread with - | w
  · have hnone : s.dispatchedBy s' e = none := by
      cases e <;> first | rfl | cases he
    rw [hnone]
    exact (callStep_of_step he h).registryStep
  · obtain ⟨-, hstep⟩ := threadStep_of_step he h
    cases e with
    | work w' =>
      obtain rfl : w' = w := Option.some.inj he
      by_cases hph : s.worker w' = .scanning
      · exact registryStep_scan hph h
      · rw [dispatchedBy, if_neg hph]
        exact hstep.registryStep hph rfl
    | execute w' result =>
      obtain rfl : w' = w := Option.some.inj he
      refine hstep.registryStep (fun hph => ?_) rfl
      simp only [step, hph] at h
      cases h
    | _ => cases he

/-! ### Who is owed a turn -/

theorem mem_turns : x ∈ s.turns ↔ x ∈ s.sessions.map SessionEntry.id := List.mem_rotate

theorem Waits.mem (h : s.Waits y) : y ∈ s.turns := by
  obtain ⟨entry, hmem, rfl, -⟩ := h
  exact mem_turns.mpr (List.mem_map_of_mem hmem)

theorem ExecutorInv.lt_of_turns (hi : ExecutorInv s) (h : x ∈ s.turns) : x < s.nextSessionId := by
  obtain ⟨entry, hmem, rfl⟩ := List.mem_map.mp (mem_turns.mp h)
  exact hi.lt_next entry hmem

theorem mem_registryAfter (h : x ∈ s.registryAfter e) : x ∈ s.turns ∨ x = s.nextSessionId := by
  rw [mem_turns]
  cases e with
  | session job =>
    rcases List.mem_append.mp h with hold | hnew
    · exact .inl hold
    · exact .inr (List.mem_singleton.mp hnew)
  | detachNext d =>
    rw [registryAfter] at h
    split_ifs at h
    · exact .inl (List.mem_of_mem_filter h)
    · exact .inl h
  | _ => exact .inl h

/-- Nothing is taken: the registry is what the event makes it, and the cursor stays. -/
theorem RegistryStep.turns_of_none {pushed : Option (ℕ × QueuedWrite)}
    (h : RegistryStep s s' e pushed none) :
    s'.turns = (s.registryAfter e).rotate s.cursor ∨ s'.sessions = [] := by
  rw [turns]
  cases h with
  | same hset hcursor _ hafter =>
    rw [hset, hcursor, hafter]
    exact .inl rfl
  | touch hx hset _ _ hid hcursor _ hafter =>
    rw [hset, hcursor, hafter, map_id_set hx hid]
    exact .inl rfl
  | attach _ _ _ hcursor _ hafter =>
    rw [hcursor, hafter]
    exact .inl rfl
  | leave _ hcursor _ hafter =>
    rw [hcursor, hafter]
    exact .inl rfl
  | clear hset _ => exact .inr hset

/-- A session is served, and its turn comes last. -/
theorem RegistryStep.turns_of_some {pushed : Option (ℕ × QueuedWrite)} {z : ℕ} {item : QueuedWrite}
    (hi : ExecutorInv s) (h : RegistryStep s s' e pushed (some (z, item))) :
    ∃ l₁ l₂, s.turns = l₁ ++ z :: l₂ ∧ s'.turns = l₂ ++ (l₁ ++ [z]) ∧ ∀ y ∈ l₁, ¬ s.Waits y := by
  cases h with
  | @take index entry _ rest l₁ l₂ hx hq hset hturn hidle hserved _ =>
    refine ⟨l₁.map SessionEntry.id, l₂.map SessionEntry.id, ?_, ?_, fun y hy hwaits => ?_⟩
    · rw [turns, ← List.map_rotate, hturn, List.map_append, List.map_cons]
    · have hids : s'.sessions.map SessionEntry.id = s.sessions.map SessionEntry.id := by
        rw [hset]
        exact map_id_set hx rfl
      rw [turns, hids, ← List.map_rotate, hserved, List.map_append, List.map_append]
      rfl
    · obtain ⟨idle, hmem, rfl⟩ := List.mem_map.mp hy
      obtain ⟨waiting, hwmem, hid, hne⟩ := hwaits
      have hin : idle ∈ s.sessions := by
        rw [← List.mem_rotate (n := s.cursor), hturn]
        exact List.mem_append_left _ hmem
      rw [List.inj_on_of_nodup_map hi.nodup hwmem hin hid] at hne
      exact hne (hidle idle hmem)

/-- Session `y` has its turn before `x`, which is no session yet to come. -/
structure Owed (s : WriteExecutor) (y x : ℕ) : Prop where
  ahead : Ahead s.turns y x
  old : x < s.nextSessionId

/-- Whoever is not served is owed a turn by the one that is. -/
theorem Owed.of_dispatch {pushed : Option (ℕ × QueuedWrite)} {item : QueuedWrite}
    (hi : ExecutorInv s) (hi' : ExecutorInv s') (h : RegistryStep s s' e pushed (some (x, item)))
    (hne : y ≠ x) (hwaits : s'.Waits y) : s'.Owed y x := by
  obtain ⟨l₁, l₂, -, hturns, -⟩ := h.turns_of_some hi
  have hnodup : s'.turns.Nodup := List.nodup_rotate.mpr hi'.nodup
  have hmem := hwaits.mem
  have hx : x ∈ s'.turns := by
    rw [hturns]
    simp
  refine ⟨?_, hi'.lt_of_turns hx⟩
  rw [hturns, ← List.append_assoc] at hnodup hmem ⊢
  refine ahead_last ?_ fun hin => List.disjoint_of_nodup_append hnodup hin (List.mem_singleton_self x)
  rcases List.mem_append.mp hmem with hin | hin
  · exact hin
  · exact absurd (List.mem_singleton.mp hin) hne

/-- A session that is owed a turn is owed it still, if nothing was dispatched. -/
theorem Owed.of_none {pushed : Option (ℕ × QueuedWrite)} (ho : s.Owed y x)
    (h : RegistryStep s s' e pushed none) (hkept : s.TurnsKept e) (hwaits : s.Waits y)
    (hwaits' : s'.Waits y) : s'.Owed y x := by
  have hold : x < s'.nextSessionId := by
    have hlt := ho.old
    cases h <;> omega
  refine ⟨?_, hold⟩
  rcases h.turns_of_none with hturns | hclear
  · have hy : y ∈ s.registryAfter e := by
      have hmem := hwaits'.mem
      rwa [hturns, List.mem_rotate] at hmem
    rw [hturns]
    by_cases hx : x ∈ s.turns
    · exact hkept y hy hwaits x hx ho.ahead
    · -- a session that has left does not come back
      refine ahead_of_notMem (List.mem_rotate.mpr hy) fun hin => ?_
      rcases mem_registryAfter (List.mem_rotate.mp hin) with hin | hnew
      · exact hx hin
      · exact absurd ho.old (by omega)
  · obtain ⟨entry, hmem, -⟩ := hwaits'
    rw [hclear] at hmem
    cases hmem

theorem Owed.of_other {pushed : Option (ℕ × QueuedWrite)} {z : ℕ} {item : QueuedWrite}
    (hi : ExecutorInv s) (ho : s.Owed y x) (h : RegistryStep s s' e pushed (some (z, item)))
    (hne : y ≠ z) (hwaits : s.Waits y) : s'.Owed y x ∧ x ≠ z := by
  obtain ⟨l₁, l₂, hturns, hturns', hidle⟩ := h.turns_of_some hi
  have hahead := ho.ahead
  rw [hturns] at hahead
  obtain ⟨hserved, hxz⟩ := hahead.served (fun hy => hidle y hy hwaits) hne
  have hold : x < s'.nextSessionId := by
    have hlt := ho.old
    cases h with
    | take _ _ _ _ _ _ hnext => omega
  exact ⟨⟨hturns' ▸ hserved, hold⟩, hxz⟩

/-! ### When the turns are kept -/

/-- A session enters at the end, and the cursor is no further. -/
theorem turnsKept_attach (hi : ExecutorInv s) (hcursor : s.cursor ≤ s.sessions.length) (job : ℕ) :
    s.TurnsKept (.session job) := by
  intro y _ _ x hx hahead
  refine hahead.append ?_ (hi.lt_of_turns hx).ne
  rw [List.length_map]
  exact hcursor

/-- The session that leaves is none of those in front of the cursor. -/
theorem turnsKept_leave {d : ℕ} (hcursor : s.cursor ≤ s.sessions.length)
    (hbehind : ∀ x ∈ s.sessions.take s.cursor, x.id ≠ (s.detaches d).session) :
    s.TurnsKept (.detachNext d) := by
  intro y hy _ x _ hahead
  rw [registryAfter] at hy ⊢
  split_ifs at hy ⊢ with hph
  · refine hahead.removed (by rw [List.length_map]; exact hcursor) (fun z hz => ?_)
      (List.mem_filter.mp hy).2
    rw [← List.map_take] at hz
    obtain ⟨entry, hmem, rfl⟩ := List.mem_map.mp hz
    exact decide_eq_true (hbehind entry hmem)
  · exact hahead

/-- The session that leaves stands in front of the cursor, and the one at the
cursor waits: now it comes after all the others. -/
theorem not_turnsKept_leave {d z : ℕ} {l₁ l₂ l₃ : List ℕ} (hi : ExecutorInv s)
    (hph : (s.detaches d).phase = .leaving) (hz : (s.detaches d).session = z)
    (hids : s.sessions.map SessionEntry.id = l₁ ++ z :: (l₂ ++ y :: l₃))
    (hcursor : s.cursor = l₁.length + 1 + l₂.length) (hwaits : s.Waits y)
    (hx : x ∈ l₃ ++ (l₁ ++ l₂)) : ¬ s.TurnsKept (.detachNext d) := by
  have hnodup := hi.nodup
  rw [hids] at hnodup
  have hturns : s.turns = y :: (l₃ ++ (l₁ ++ z :: l₂)) := by
    have hsplit : l₁ ++ z :: (l₂ ++ y :: l₃) = (l₁ ++ z :: l₂) ++ y :: l₃ := by simp
    rw [turns, hids, hsplit]
    refine rotate_append_of_length ?_
    rw [hcursor, List.length_append, List.length_cons]
    omega
  have hleft : (l₁ ++ z :: (l₂ ++ y :: l₃)).filter (· ≠ z) = l₁ ++ l₂ ++ [y] ++ l₃ := by
    have hz₁ : z ∉ l₁ := fun hin =>
      List.disjoint_of_nodup_append hnodup hin List.mem_cons_self
    calc (l₁ ++ z :: (l₂ ++ y :: l₃)).filter (· ≠ z)
        = (l₁ ++ z :: (l₂ ++ y :: l₃)).erase z := by
          rw [hnodup.erase_eq_filter]
          refine List.filter_congr fun a _ => ?_
          rw [Bool.eq_iff_iff, decide_eq_true_iff, bne_iff_ne]
      _ = l₁ ++ l₂ ++ [y] ++ l₃ := by
          rw [List.erase_append_right _ hz₁, List.erase_cons_head]
          simp
  have hafter : (s.registryAfter (.detachNext d)).rotate s.cursor = l₃ ++ (l₁ ++ l₂) ++ [y] := by
    rw [registryAfter, if_pos hph, hz, hids, hleft, List.append_assoc l₃]
    refine rotate_append_of_length ?_
    rw [hcursor, List.length_append, List.length_append, List.length_singleton]
    omega
  have hnodup' : (y :: (l₃ ++ (l₁ ++ z :: l₂))).Nodup := by
    rw [← hturns]
    exact List.nodup_rotate.mpr hi.nodup
  have hin : x ∈ l₃ ++ (l₁ ++ z :: l₂) := by
    simp only [List.mem_append, List.mem_cons] at hx ⊢
    tauto
  have hy : y ∉ l₃ ++ (l₁ ++ l₂) := by
    have hno := (List.nodup_cons.mp hnodup').1
    simp only [List.mem_append, List.mem_cons] at hno ⊢
    tauto
  intro hkept
  refine (hkept y ?_ hwaits x ?_ ?_).asymm ?_
  · rw [registryAfter, if_pos hph, hz, hids, hleft]
    simp
  · rw [hturns]
    exact List.mem_cons_of_mem _ hin
  · rw [hturns]
    refine ahead_iff.mpr ⟨[], _, rfl, List.not_mem_nil, ?_⟩
    rintro rfl
    exact hy hx
  · rw [hafter]
    exact ahead_last hx hy

/-! ### The logs -/

/-- The executor, with the writes enqueued and dispatched so far. -/
structure History where
  executor : WriteExecutor
  enqueued : List (ℕ × QueuedWrite)
  dispatched : List (ℕ × QueuedWrite)

/-- The writes of one session in a log. -/
def ofSession (id : ℕ) (log : List (ℕ × QueuedWrite)) : List QueuedWrite :=
  (log.filter (·.1 = id)).map Prod.snd

theorem ofSession_append (id : ℕ) (log log' : List (ℕ × QueuedWrite)) :
    ofSession id (log ++ log') = ofSession id log ++ ofSession id log' := by
  rw [ofSession, List.filter_append, List.map_append]
  rfl

theorem ofSession_own (id : ℕ) (item : QueuedWrite) : ofSession id [(id, item)] = [item] := by
  simp [ofSession]

theorem ofSession_other {id id' : ℕ} (h : id' ≠ id) (item : QueuedWrite) :
    ofSession id [(id', item)] = [] := by
  simp [ofSession, h]

namespace History

/-- An executor, and an empty history. -/
def new (writerThreads maxQueuedBytes : ℕ) : History :=
  ⟨.new writerThreads maxQueuedBytes, [], []⟩

/-- One event, with what it queues and what it dispatches. -/
def step (h : History) (e : ExecutorEvent) : Option History :=
  (h.executor.step e).map fun s' =>
    ⟨s', h.enqueued ++ (h.executor.enqueuedBy s' e).toList,
      h.dispatched ++ (h.executor.dispatchedBy s' e).toList⟩

variable {h h' t : History}

/-- **A step enqueues one write at most, and dispatches one at most.** -/
theorem step_spec (hs : h.step e = some h') :
    ∃ pushed taken, RegistryStep h.executor h'.executor e pushed taken ∧
      h'.enqueued = h.enqueued ++ pushed.toList ∧ h'.dispatched = h.dispatched ++ taken.toList := by
  obtain ⟨s', hs', rfl⟩ := Option.map_eq_some_iff.mp hs
  exact ⟨_, _, registryStep_of_step hs', rfl, rfl⟩

/-! ### Order -/

/-- What was enqueued and not dispatched is in the queue, in the order in which
it was enqueued. -/
structure Ordered (h : History) : Prop where
  queued : ∀ x ∈ h.executor.sessions,
    ofSession x.id h.dispatched ++ x.queue <+: ofSession x.id h.enqueued
  whole : ∀ x ∈ h.executor.sessions, x.closed = false →
    ofSession x.id h.enqueued = ofSession x.id h.dispatched ++ x.queue
  ordered : ∀ id, ofSession id h.dispatched <+: ofSession id h.enqueued
  fresh : ∀ id, h.executor.nextSessionId ≤ id → ofSession id h.enqueued = []

theorem Ordered.new (n m : ℕ) : Ordered (new n m) where
  queued := nofun
  whole := nofun
  ordered := fun _ => List.prefix_refl _
  fresh := fun _ _ => rfl

/-- Entries that are as they were, and logs that are. -/
theorem Ordered.of_subset (ho : h.Ordered) (hset : ∀ x ∈ h'.executor.sessions, x ∈ h.executor.sessions)
    (hnext : h.executor.nextSessionId ≤ h'.executor.nextSessionId)
    (henq : h'.enqueued = h.enqueued ++ []) (hdisp : h'.dispatched = h.dispatched ++ []) :
    h'.Ordered := by
  rw [List.append_nil] at henq hdisp
  refine ⟨fun x hx => ?_, fun x hx => ?_, fun id => ?_, fun id hid => ?_⟩
  · rw [henq, hdisp]
    exact ho.queued x (hset x hx)
  · rw [henq, hdisp]
    exact ho.whole x (hset x hx)
  · rw [henq, hdisp]
    exact ho.ordered id
  · rw [henq]
    exact ho.fresh id (hnext.trans hid)

/-- One entry is replaced, and only its session is in the logs of the step. -/
theorem Ordered.replace (ho : h.Ordered) (hi : ExecutorInv h.executor) {index : ℕ}
    {x x' : SessionEntry} (hx : h.executor.sessions[index]? = some x)
    (hset : h'.executor.sessions = h.executor.sessions.set index x') (hid : x'.id = x.id)
    (hnext : h'.executor.nextSessionId = h.executor.nextSessionId)
    (hother : ∀ id, x.id ≠ id → ofSession id h'.enqueued = ofSession id h.enqueued ∧
      ofSession id h'.dispatched = ofSession id h.dispatched)
    (hqueued : ofSession x.id h'.dispatched ++ x'.queue <+: ofSession x.id h'.enqueued)
    (hwhole : x'.closed = false →
      ofSession x.id h'.enqueued = ofSession x.id h'.dispatched ++ x'.queue) : h'.Ordered := by
  refine ⟨fun y hy => ?_, fun y hy => ?_, fun id => ?_, fun id hlt => ?_⟩
  · rcases hi.mem_set hx (hset ▸ hy) with rfl | ⟨hmem, hne⟩
    · rw [hid]
      exact hqueued
    · rw [(hother y.id hne.symm).1, (hother y.id hne.symm).2]
      exact ho.queued y hmem
  · rcases hi.mem_set hx (hset ▸ hy) with rfl | ⟨hmem, hne⟩
    · rw [hid]
      exact hwhole
    · rw [(hother y.id hne.symm).1, (hother y.id hne.symm).2]
      exact ho.whole y hmem
  · by_cases hown : x.id = id
    · rw [← hown]
      exact (List.prefix_append _ _).trans hqueued
    · rw [(hother id hown).1, (hother id hown).2]
      exact ho.ordered id
  · have hmem := hi.lt_next x (List.mem_of_getElem? hx)
    rw [hnext] at hlt
    rw [(hother id (by omega)).1]
    exact ho.fresh id hlt

/-- **The queue keeps the order of its writes.** -/
theorem Ordered.step {e : ExecutorEvent} (ho : h.Ordered) (hi : ExecutorInv h.executor)
    (hs : h.step e = some h') : h'.Ordered := by
  obtain ⟨pushed, taken, hstep, henq, hdisp⟩ := step_spec hs
  cases hstep with
  | same hset _ hnext _ =>
    exact ho.of_subset (fun x hx => hset ▸ hx) hnext.ge henq hdisp
  | @touch index x x' item _ hx hset htouch hpushed hid _ hnext _ =>
    subst hpushed
    rw [Option.toList_none, List.append_nil] at hdisp
    have hmem := List.mem_of_getElem? hx
    have hown : ofSession x.id h'.enqueued = ofSession x.id h.enqueued ++ item.toList := by
      rw [henq, ofSession_append]
      rcases item with - | item
      · rfl
      · exact congrArg _ (ofSession_own x.id item)
    obtain ⟨hqueued, hwhole⟩ := htouch.queue (ho.queued x hmem) (ho.whole x hmem)
    refine ho.replace hi hx hset hid hnext (fun id hne => ⟨?_, by rw [hdisp]⟩) ?_ ?_
    · rw [henq, ofSession_append]
      rcases item with - | item
      · exact List.append_nil _
      · exact (congrArg _ (ofSession_other hne item)).trans (List.append_nil _)
    · rw [hown, hdisp]
      exact hqueued
    · rw [hown, hdisp]
      exact hwhole
  | @take index x item rest l₁ l₂ hx hq hset _ _ _ hnext =>
    rw [Option.toList_none, List.append_nil] at henq
    have hmem := List.mem_of_getElem? hx
    have hown : ofSession x.id h'.dispatched ++ rest = ofSession x.id h.dispatched ++ x.queue := by
      rw [hdisp, ofSession_append, Option.toList_some, ofSession_own, List.append_assoc, hq]
      rfl
    refine ho.replace hi hx hset rfl hnext (fun id hne => ⟨by rw [henq], ?_⟩) ?_ ?_
    · rw [hdisp, ofSession_append, Option.toList_some, ofSession_other hne, List.append_nil]
    · rw [henq]
      exact hown ▸ ho.queued x hmem
    · rw [henq]
      exact fun hopen => (ho.whole x hmem hopen).trans hown.symm
  | @attach x hid hq hset _ hnext _ =>
    rw [Option.toList_none, List.append_nil] at henq hdisp
    -- the identity is new to the logs
    have hfresh : ofSession x.id h'.enqueued = [] := by
      rw [henq, hid]
      exact ho.fresh _ le_rfl
    have hnone : ofSession x.id h'.dispatched = [] := by
      have hpre := ho.ordered x.id
      rw [← henq, hfresh] at hpre
      rw [hdisp]
      exact List.prefix_nil.mp hpre
    refine ⟨fun y hy => ?_, fun y hy => ?_, fun id => ?_, fun id hlt => ?_⟩
    · rcases List.mem_append.mp (hset ▸ hy) with hy | hy
      · rw [henq, hdisp]
        exact ho.queued y hy
      · rw [List.mem_singleton.mp hy, hfresh, hnone, hq]
        exact List.prefix_refl _
    · rcases List.mem_append.mp (hset ▸ hy) with hy | hy
      · rw [henq, hdisp]
        exact ho.whole y hy
      · rw [List.mem_singleton.mp hy, hfresh, hnone, hq]
        exact fun _ => rfl
    · rw [henq, hdisp]
      exact ho.ordered id
    · rw [henq]
      exact ho.fresh id (by omega)
  | leave hset _ hnext _ =>
    exact ho.of_subset (fun x hx => hset.subset hx) hnext.ge henq hdisp
  | clear hset hnext =>
    refine ho.of_subset (fun x hx => ?_) hnext.ge henq hdisp
    rw [hset] at hx
    cases hx

/-! ### Fairness -/

/-- The dispatches of a run come behind the earlier ones. -/
theorem dispatched_of_run {es : List ExecutorEvent} (hrun : runEvents History.step h es = some t) :
    h.dispatched <+: t.dispatched := by
  induction es generalizing h with
  | nil =>
    cases hrun
    exact List.prefix_refl _
  | cons e es ih =>
    obtain ⟨u, hu, hrest⟩ := Option.bind_eq_some_iff.mp hrun
    obtain ⟨-, taken, -, -, hdisp⟩ := step_spec hu
    exact (hdisp ▸ List.prefix_append _ _ : h.dispatched <+: u.dispatched).trans (ih hrest)

/-- The executor's own invariant, along its history. -/
theorem executorInv_step {e : ExecutorEvent} (hi : ExecutorInv h.executor) (hs : h.step e = some h') :
    ExecutorInv h'.executor := by
  obtain ⟨s', hs', rfl⟩ := Option.map_eq_some_iff.mp hs
  exact hi.step hs'

/-- The registry changes by steps that meet `ok`, and session `y` waits all the time. -/
def StaysWaiting (ok : WriteExecutor → ExecutorEvent → Prop) (y : ℕ) (h : History)
    (es : List ExecutorEvent) : Prop :=
  runOk History.step (fun u e => ok u.executor e ∧ u.executor.Waits y) h es

/-- Between two dispatches of one session each other one that waits all the
time is dispatched, if the steps between them meet `ok`. -/
def Fair (ok : WriteExecutor → ExecutorEvent → Prop) (h : History) : Prop :=
  ∀ e x a h₁, h.step e = some h₁ → h₁.dispatched = h.dispatched ++ [(x, a)] →
    ∀ y, y ≠ x → ∀ es t, runEvents History.step h₁ es = some t → StaysWaiting ok y h₁ es →
      t.executor.Waits y → ∀ e' b t', t.step e' = some t' →
        t'.dispatched = t.dispatched ++ [(x, b)] →
        ∃ item, (y, item) ∈ t.dispatched.drop h₁.dispatched.length

instance (ok : WriteExecutor → ExecutorEvent → Prop) [∀ s e, Decidable (ok s e)] (y : ℕ) (h : History)
    (es : List ExecutorEvent) : Decidable (StaysWaiting ok y h es) :=
  inferInstanceAs (Decidable (runOk History.step _ h es))

/-- The session waits in the first state as well as in the last. -/
theorem StaysWaiting.waits {ok : WriteExecutor → ExecutorEvent → Prop} {y : ℕ}
    {es : List ExecutorEvent} (hw : StaysWaiting ok y h es)
    (hrun : runEvents History.step h es = some t) (hend : t.executor.Waits y) :
    h.executor.Waits y := by
  rcases es with - | ⟨e, es⟩
  · cases hrun
    exact hend
  · exact hw.1.2

/-- Along a run the session keeps its turn, or has had it. -/
theorem owed_run {x y : ℕ} {es : List ExecutorEvent} (hi : ExecutorInv h.executor)
    (ho : h.executor.Owed y x) (hrun : runEvents History.step h es = some t)
    (hw : StaysWaiting TurnsKept y h es) (hend : t.executor.Waits y) :
    (∃ item, (y, item) ∈ t.dispatched.drop h.dispatched.length) ∨ t.executor.Owed y x := by
  induction es generalizing h with
  | nil =>
    cases hrun
    exact .inr ho
  | cons e es ih =>
    obtain ⟨u, hu, hrest⟩ := Option.bind_eq_some_iff.mp hrun
    obtain ⟨⟨hkept, hwaits⟩, hok⟩ := hw
    have hiu := executorInv_step hi hu
    have hwu : StaysWaiting TurnsKept y u es := hok u hu
    have hwaits' := hwu.waits hrest hend
    obtain ⟨pushed, taken, hstep, -, hdisp⟩ := step_spec hu
    obtain ⟨later, hlater⟩ := dispatched_of_run hrest
    have hdrop : t.dispatched.drop h.dispatched.length = taken.toList ++ later := by
      rw [← hlater, hdisp, List.append_assoc, List.drop_left]
    have hnext : u.executor.Owed y x → (∃ item, (y, item) ∈ t.dispatched.drop h.dispatched.length) ∨
        t.executor.Owed y x := by
      intro hou
      refine (ih hiu hou hrest hwu).imp_left fun ⟨item, hitem⟩ => ⟨item, ?_⟩
      rw [← hlater, List.drop_left] at hitem
      rw [hdrop]
      exact List.mem_append_right _ hitem
    rcases taken with - | ⟨z, item⟩
    · exact hnext (ho.of_none hstep hkept hwaits hwaits')
    · by_cases hz : y = z
      · refine .inl ⟨item, ?_⟩
        rw [hdrop, hz]
        exact List.mem_append_left _ (List.mem_singleton_self _)
      · exact hnext (ho.of_other hi hstep hz hwaits).1

/-- The step that adds one dispatch to the log. -/
theorem step_dispatched {e : ExecutorEvent} {p : ℕ × QueuedWrite} (hs : h.step e = some h')
    (hp : h'.dispatched = h.dispatched ++ [p]) :
    ∃ pushed, RegistryStep h.executor h'.executor e pushed (some p) := by
  obtain ⟨pushed, taken, hstep, -, hdisp⟩ := step_spec hs
  have htaken := List.append_cancel_left (hdisp.symm.trans hp)
  rcases taken with - | q
  · cases htaken
  · cases htaken
    exact ⟨pushed, hstep⟩

/-- **The executor's invariant makes every step fair** that keeps the turns. -/
theorem fair_of_inv (hi : ExecutorInv h.executor) : h.Fair TurnsKept := by
  intro e x a h₁ hs hdisp y hne es t hrun hw hend e' b t' hs' hdisp'
  obtain ⟨pushed, hstep⟩ := step_dispatched hs hdisp
  obtain ⟨pushed', hstep'⟩ := step_dispatched hs' hdisp'
  have hi₁ := executorInv_step hi hs
  have ho := Owed.of_dispatch hi hi₁ hstep hne (hw.waits hrun hend)
  rcases owed_run hi₁ ho hrun hw hend with hserved | howed
  · exact hserved
  · have hit : ExecutorInv t.executor := by
      have hreach : Reach History.step (fun _ _ => True) (· = h₁) t :=
        .of_run (.start rfl) runOk_true hrun
      exact hreach.invariant (fun _ h₀ => h₀ ▸ hi₁) fun _ _ _ hc _ hs => executorInv_step hc hs
    -- the one with the earlier turn is not passed over
    exact absurd rfl (howed.of_other hit hstep' hne hend).2

/-- **Dispatch is ordered and fair.**  In every state reached the writes of a
session have been dispatched in the order in which they entered its queue, and
between two dispatches of one session no other is passed over, as long as the
registry changes without a change of turns. -/
theorem dispatch_ordered_and_fair {n m : ℕ} {h : History}
    (hr : Reach History.step (fun _ _ => True) (· = History.new n m) h) :
    (∀ id, ofSession id h.dispatched <+: ofSession id h.enqueued) ∧ h.Fair TurnsKept := by
  have hinv : ExecutorInv h.executor ∧ h.Ordered :=
    hr.invariant (I := fun u => ExecutorInv u.executor ∧ u.Ordered)
      (fun _ h₀ => h₀ ▸ ⟨.new n m, .new n m⟩) fun _ _ _ hc _ hs =>
        ⟨executorInv_step hc.1 hs, hc.2.step hc.1 hs⟩
  exact ⟨hinv.2.ordered, fair_of_inv hinv.1⟩

/-- Three sessions, the writes of the sessions `submits`, and a thread that is
about to look for one. -/
def busyRun (submits : List ℕ) : List ExecutorEvent :=
  List.replicate 3 (ExecutorEvent.session 0) ++
    ((List.range submits.length).zip submits).flatMap (fun (i, id) =>
      [ExecutorEvent.submit id ⟨0, 0, 0, i, [7]⟩, .submitNext i, .submitNext i, .submitNext i,
        .submitNotify i none]) ++ [ExecutorEvent.work 0]

/-- The thread executes its write and comes back. -/
def executeRun : List ExecutorEvent :=
  ExecutorEvent.execute 0 none :: List.replicate 5 (ExecutorEvent.work 0)

/-- Session `id` leaves. -/
def leaveRun (id : ℕ) : List ExecutorEvent :=
  [ExecutorEvent.detach id .drain, .detachNext 0, .detachNext 0, .detachNext 0]

/-- What the runs submit in call `i`. -/
def busyItem (i : ℕ) : QueuedWrite := ⟨i, ⟨0, 0, 0, i, [7]⟩, 1⟩

/-- The last of three sessions leaves, and the second is served before the first
is again. -/
theorem dispatch_ordered_and_fair_leaveRun :
    ∃ h₁ t t' : History, h₁.dispatched = [(0, busyItem 0)] ∧
      t'.dispatched = t.dispatched ++ [(0, busyItem 1)] ∧
      ∃ item, (1, item) ∈ t.dispatched.drop h₁.dispatched.length := by
  have hrun : ∃ h ∈ runEvents History.step (.new 1 64) (busyRun [0, 0, 1, 1]),
      ∃ h₁ ∈ h.step (.work 0),
        ∃ t ∈ runEvents History.step h₁ (leaveRun 2 ++ executeRun ++ [.work 0] ++ executeRun),
          ∃ t' ∈ t.step (.work 0), (h.dispatched = [] ∧ h₁.dispatched = [(0, busyItem 0)] ∧
            t'.dispatched = t.dispatched ++ [(0, busyItem 1)]) ∧
            StaysWaiting TurnsKept 1 h₁ (leaveRun 2 ++ executeRun ++ [.work 0] ++ executeRun) ∧
            t.executor.Waits 1 := by decide +kernel
  obtain ⟨h, hrun, h₁, hs, t, hmid, t', hs', ⟨hnone, hfirst, hsecond⟩, hwaits, hend⟩ := hrun
  have hreach : Reach History.step (fun _ _ => True) (· = .new 1 64) h :=
    .of_run (.start rfl) runOk_true hrun
  have hfair := (dispatch_ordered_and_fair hreach).2
  have hdisp : h₁.dispatched = h.dispatched ++ [(0, busyItem 0)] := by
    rw [hnone, hfirst, List.nil_append]
  exact ⟨h₁, t, t', hfirst, hsecond, hfair _ 0 _ h₁ hs hdisp 1 (by decide) _ t hmid hwaits hend _ _ t'
    hs' hsecond⟩

/-- The second of three sessions is served, the first leaves, and the second is
served again, while the third waits. -/
theorem third_session_passed_over :
    ∃ h : History, Reach History.step (fun _ _ => True) (· = .new 1 64) h ∧
      ¬ h.Fair fun _ _ => True := by
  have hrun : ∃ h ∈ runEvents History.step (.new 1 64) (busyRun [1, 1, 2]),
      ∃ h₁ ∈ h.step (.work 0), ∃ t ∈ runEvents History.step h₁ (leaveRun 0 ++ executeRun),
        ∃ t' ∈ t.step (.work 0), (h₁.dispatched = h.dispatched ++ [(1, busyItem 0)] ∧
          t'.dispatched = t.dispatched ++ [(1, busyItem 1)] ∧ t.dispatched = h₁.dispatched) ∧
          StaysWaiting (fun _ _ => True) 2 h₁ (leaveRun 0 ++ executeRun) ∧
          t.executor.Waits 2 := by decide +kernel
  obtain ⟨h, hrun, h₁, hs, t, hmid, t', hs', ⟨hfirst, hsecond, hno⟩, hwaits, hend⟩ := hrun
  refine ⟨h, .of_run (.start rfl) runOk_true hrun, fun hfair => ?_⟩
  obtain ⟨item, hitem⟩ := hfair _ 1 _ h₁ hs hfirst 2 (by decide) _ t hmid hwaits hend _ _ t' hs' hsecond
  rw [hno, List.drop_length] at hitem
  cases hitem

end History

end WriteExecutor

end KDown
