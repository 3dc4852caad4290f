/-
KDown/RenameSequential.lean

The selection of a renamed destination as one function, and the calls of
RenameSelection.lean as its execution: where nobody else acts, the calls of a
job lead to the result of the function (`rename_selection_alone`).

`select_rename_candidate` reads as two searches: for the first candidate with
resumable partial output, and then for the first one that is free.  Either
search ends early where a lease or the checkpoint store fails.
-/
import KDown.RenameSelection
import Mathlib.Logic.Relation

namespace KDown

section Select

variable (job : RenameJob) (occupied leased : OsStr → Bool) (answers : OsStr → RenameAnswers)

/-- Resume-first discovery: what ends the scan at a candidate, if anything does. -/
def resumeCandidate (name : OsStr) : Option SelectionPhase :=
  if occupied (partName name) then
    match tryLease (leased name) (answers name).lease with
    | .held =>
        if occupied name then none
        else
          match (answers name).admission with
          | .ok true => some (.selected name true)
          | .ok false => none
          | .error e => some (.failed e)
    | .conflict => none
    | .failed e => some (.failed e)
  else none

/-- Fresh selection: what ends it at a candidate, if anything does. -/
def freshCandidate (name : OsStr) : Option SelectionPhase :=
  if occupied name || occupied (partName name) then none
  else
    match tryLease (leased name) (answers name).lease with
    | .held =>
        match (answers name).admission with
        | .ok true => some (.selected name true)
        | .ok false =>
            some (if job.resume = .required then .exhausted true else .selected name false)
        | .error e => some (.failed e)
    | .conflict => none
    | .failed e => some (.failed e)

/-- The fresh selection among the candidates. -/
def selectFresh (rest : List OsStr) : SelectionPhase :=
  (rest.findSome? (freshCandidate job occupied leased answers)).getD
    (.exhausted (job.resume = .required))

/-- The selection as one function (`select_rename_candidate`). -/
def selectRenameCandidate : SelectionPhase :=
  if job.resume = .never then selectFresh job occupied leased answers job.candidates
  else
    (job.candidates.findSome? (resumeCandidate occupied leased answers)).getD
      (selectFresh job occupied leased answers job.candidates)

end Select

/-! ### The calls and the searches -/

section Calls

variable {job : RenameJob} {occupied leased : OsStr → Bool} {answers : OsStr → RenameAnswers}

/-- One call, answered for the candidate it is about. -/
def SelectCall (job : RenameJob) (occupied leased : OsStr → Bool)
    (answers : OsStr → RenameAnswers) (p p' : SelectionPhase) : Prop :=
  ∃ change, selectStep job occupied leased (answers (p.names.headD [])) p = some (p', change)

/-- The calls for one name in the first pass. -/
theorem calls_scan (name : OsStr) (rest : List OsStr) :
    Relation.ReflTransGen (SelectCall job occupied leased answers) (.scan (name :: rest))
      ((resumeCandidate occupied leased answers name).getD (.scan rest)) := by
  rw [resumeCandidate]
  by_cases hpart : occupied (partName name) = true
  · rw [if_pos hpart]
    have hscan : SelectCall job occupied leased answers (.scan (name :: rest))
        (.scanLease name rest) := ⟨.none, by rw [selectStep, if_pos hpart]⟩
    refine .head hscan ?_
    rcases hlease : tryLease (leased name) (answers name).lease with - | - | e
    · have hheld : SelectCall job occupied leased answers (.scanLease name rest)
          (.scanHeld name rest) :=
        ⟨.take name, by simp only [selectStep, SelectionPhase.names, List.headD_cons, hlease]⟩
      refine .head hheld ?_
      by_cases hname : occupied name = true
      · rw [if_pos hname]
        exact .single ⟨.drop name, by rw [selectStep, if_pos hname]; rfl⟩
      · rw [if_neg hname]
        have hadmit : SelectCall job occupied leased answers (.scanHeld name rest)
            (.scanAdmit name rest) := ⟨.none, by rw [selectStep, if_neg hname]⟩
        refine .head hadmit ?_
        rcases hadmission : (answers name).admission with e | (- | -)
        · exact .single ⟨.drop name, by
            simp only [selectStep, SelectionPhase.names, List.headD_cons, hadmission]; rfl⟩
        · exact .single ⟨.drop name, by
            simp only [selectStep, SelectionPhase.names, List.headD_cons, hadmission]; rfl⟩
        · exact .single ⟨.none, by
            simp only [selectStep, SelectionPhase.names, List.headD_cons, hadmission]; rfl⟩
    · exact .single ⟨.none, by
        simp only [selectStep, SelectionPhase.names, List.headD_cons, hlease]; rfl⟩
    · exact .single ⟨.none, by
        simp only [selectStep, SelectionPhase.names, List.headD_cons, hlease]; rfl⟩
  · rw [if_neg hpart]
    exact .single ⟨.none, by rw [selectStep, if_neg hpart]; rfl⟩

/-- The calls for one name in the second pass. -/
theorem calls_fresh (name : OsStr) (rest : List OsStr) :
    Relation.ReflTransGen (SelectCall job occupied leased answers) (.fresh (name :: rest))
      ((freshCandidate job occupied leased answers name).getD (.fresh rest)) := by
  rw [freshCandidate]
  by_cases hname : occupied name = true
  · rw [hname, Bool.true_or, if_pos rfl]
    exact .single ⟨.none, by rw [selectStep, if_pos hname]; rfl⟩
  have hfresh : SelectCall job occupied leased answers (.fresh (name :: rest))
      (.freshPart name rest) := ⟨.none, by rw [selectStep, if_neg hname]⟩
  refine .head hfresh ?_
  rw [Bool.eq_false_iff.mpr hname, Bool.false_or]
  by_cases hpart : occupied (partName name) = true
  · rw [if_pos hpart]
    exact .single ⟨.none, by rw [selectStep, if_pos hpart]; rfl⟩
  have hask : SelectCall job occupied leased answers (.freshPart name rest)
      (.freshLease name rest) := ⟨.none, by rw [selectStep, if_neg hpart]⟩
  refine .head hask ?_
  rw [if_neg hpart]
  rcases hlease : tryLease (leased name) (answers name).lease with - | - | e
  · have hheld : SelectCall job occupied leased answers (.freshLease name rest)
        (.freshHeld name rest) :=
      ⟨.take name, by simp only [selectStep, SelectionPhase.names, List.headD_cons, hlease]⟩
    have hagain : SelectCall job occupied leased answers (.freshHeld name rest)
        (.freshHeldPart name rest) := ⟨.none, by rw [selectStep, if_neg hname]⟩
    have hadmit : SelectCall job occupied leased answers (.freshHeldPart name rest)
        (.freshAdmit name rest) := ⟨.none, by rw [selectStep, if_neg hpart]⟩
    refine .head hheld (.head hagain (.head hadmit ?_))
    rcases hadmission : (answers name).admission with e | (- | -)
    · exact .single ⟨.drop name, by
        simp only [selectStep, SelectionPhase.names, List.headD_cons, hadmission]; rfl⟩
    · by_cases hrequired : job.resume = .required
      · rw [if_pos hrequired]
        exact .single ⟨.drop name, by
          simp only [selectStep, SelectionPhase.names, List.headD_cons, hadmission,
            if_pos hrequired]; rfl⟩
      · rw [if_neg hrequired]
        exact .single ⟨.none, by
          simp only [selectStep, SelectionPhase.names, List.headD_cons, hadmission,
            if_neg hrequired]; rfl⟩
    · exact .single ⟨.none, by
        simp only [selectStep, SelectionPhase.names, List.headD_cons, hadmission]; rfl⟩
  · exact .single ⟨.none, by
      simp only [selectStep, SelectionPhase.names, List.headD_cons, hlease]; rfl⟩
  · exact .single ⟨.none, by
      simp only [selectStep, SelectionPhase.names, List.headD_cons, hlease]; rfl⟩

/-- The calls of a fresh selection are the search for a free candidate. -/
theorem calls_selectFresh (rest : List OsStr) :
    Relation.ReflTransGen (SelectCall job occupied leased answers) (.fresh rest)
      (selectFresh job occupied leased answers rest) := by
  induction rest with
  | nil => exact .single ⟨.none, rfl⟩
  | cons name rest ih =>
    have hname : Relation.ReflTransGen (SelectCall job occupied leased answers) _ _ :=
      calls_fresh name rest
    rw [selectFresh, List.findSome?_cons]
    rcases hout : freshCandidate job occupied leased answers name with - | p
    · rw [hout] at hname
      exact hname.trans ih
    · rw [hout] at hname
      exact hname

/-- The calls of the scan are the search for partial output, and where it finds
none the fresh selection. -/
theorem calls_scan_all (rest : List OsStr) :
    Relation.ReflTransGen (SelectCall job occupied leased answers) (.scan rest)
      ((rest.findSome? (resumeCandidate occupied leased answers)).getD
        (selectFresh job occupied leased answers job.candidates)) := by
  induction rest with
  | nil => exact .head ⟨.none, rfl⟩ (calls_selectFresh job.candidates)
  | cons name rest ih =>
    have hname : Relation.ReflTransGen (SelectCall job occupied leased answers) _ _ :=
      calls_scan name rest
    rw [List.findSome?_cons]
    rcases hout : resumeCandidate occupied leased answers name with - | p
    · rw [hout] at hname
      exact hname.trans ih
    · rw [hout] at hname
      exact hname

theorem calls_selectRenameCandidate :
    Relation.ReflTransGen (SelectCall job occupied leased answers) job.begin
      (selectRenameCandidate job occupied leased answers) := by
  rw [RenameJob.begin, selectRenameCandidate]
  split_ifs
  · exact calls_selectFresh job.candidates
  · exact calls_scan_all job.candidates

theorem findSome_of_ended {f : OsStr → Option SelectionPhase} {p : SelectionPhase}
    (hf : ∀ name q, f name = some q → q.ended = true) (hp : p.ended = true) (rest : List OsStr) :
    ((rest.findSome? f).getD p).ended = true := by
  rcases hfound : rest.findSome? f with - | q
  · exact hp
  · obtain ⟨_, name, _, _, hq, _⟩ := List.findSome?_eq_some_iff.mp hfound
    exact hf name q hq

theorem selectRenameCandidate_ended :
    (selectRenameCandidate job occupied leased answers).ended = true := by
  have hfresh : (selectFresh job occupied leased answers job.candidates).ended = true := by
    refine findSome_of_ended (fun name q hq => ?_) rfl _
    rw [freshCandidate] at hq
    split_ifs at hq
    repeat' split at hq
    all_goals cases hq
    any_goals rfl
  rw [selectRenameCandidate]
  split_ifs
  · exact hfresh
  · refine findSome_of_ended (fun name q hq => ?_) hfresh _
    rw [resumeCandidate] at hq
    split_ifs at hq
    repeat' split at hq
    all_goals (first | (cases hq; rfl) | cases hq)

end Calls

/-! ### A job alone -/

/-- Under a lease the other leases are not looked at. -/
theorem selectStep_leased {job : RenameJob} {occupied leased leased' : OsStr → Bool}
    {a : RenameAnswers} {p : SelectionPhase} {name : OsStr} (h : p.holds = some name) :
    selectStep job occupied leased a p = selectStep job occupied leased' a p := by
  cases p <;> first | rfl | cases h

namespace RenameState

/-- Is the name under lease? -/
def isLeased (s : RenameState) (name : OsStr) : Bool := (s.leased name).isSome

/-- One call of the job, answered for the candidate it is about. -/
def Alone (jobs : ℕ → RenameJob) (answers : OsStr → RenameAnswers) (j : ℕ) (s s' : RenameState) :
    Prop :=
  step jobs s (.select j (answers ((s.phases j).names.headD []))) = some s'

/-- The job stands at `p`, with the lease it holds there. -/
def stand (s : RenameState) (j : ℕ) (p : SelectionPhase) : RenameState :=
  match p.holds with
  | some name => (s.setPhase j p).setLease name (some (.job j))
  | none => s.setPhase j p

variable {jobs : ℕ → RenameJob} {answers : OsStr → RenameAnswers} {j : ℕ} {s : RenameState}
  {p p' : SelectionPhase}

theorem stand_of_holds {name : OsStr} (h : p.holds = some name) :
    s.stand j p = (s.setPhase j p).setLease name (some (.job j)) := by
  rw [stand, h]

theorem stand_of_none (h : p.holds = none) : s.stand j p = s.setPhase j p := by
  rw [stand, h]

theorem stand_phases : (s.stand j p).phases = Function.update s.phases j p := by
  rcases h : p.holds with - | name
  · rw [stand_of_none h]
    rfl
  · rw [stand_of_holds h]
    rfl

theorem stand_occupied : (s.stand j p).occupied = s.occupied := by
  rcases h : p.holds with - | name
  · rw [stand_of_none h]
    rfl
  · rw [stand_of_holds h]
    rfl

/-- One call takes the job from where it stands to where the call leads. -/
theorem alone_of_call (hfree : ∀ name, p.holds = some name → s.leased name = none)
    (h : SelectCall (jobs j) s.occupied s.isLeased answers p p') :
    Alone jobs answers j (s.stand j p) (s.stand j p') ∧
      ∀ name, p'.holds = some name → s.leased name = none := by
  obtain ⟨change, hcall⟩ := h
  have hspec := selectStep_spec hcall
  have hstep : Alone jobs answers j (s.stand j p)
      (((s.stand j p).setPhase j p').changeLease j change) := by
    rw [Alone, RenameState.step, stand_phases, Function.update_self, stand_occupied]
    rcases hp : p.holds with - | name
    · rw [stand_of_none hp]
      show Option.map _ (selectStep (jobs j) s.occupied s.isLeased _ p) = _
      rw [hcall]
      rfl
    · rw [selectStep_leased hp, hcall]
      rfl
  have hphases : ∀ q, Function.update (Function.update s.phases j q) j p' =
      Function.update s.phases j p' := fun q => Function.update_idem ..
  cases hspec.lease with
  | keep hholds =>
    refine ⟨?_, hholds ▸ hfree⟩
    have hstand : (s.stand j p).setPhase j p' = s.stand j p' := by
      rcases hp : p.holds with - | name
      · rw [stand_of_none hp, stand_of_none (hholds.trans hp), setPhase, setPhase, hphases]
        rfl
      · rw [stand_of_holds hp, stand_of_holds (hholds.trans hp)]
        simp only [setPhase, setLease, hphases]
    rw [← hstand]
    exact hstep
  | @take name hasks hleased hnone hholds =>
    refine ⟨?_, fun n hn => ?_⟩
    · have hstand : ((s.stand j p).setPhase j p').setLease name (some (.job j)) = s.stand j p' := by
        rw [stand_of_none hnone, stand_of_holds hholds]
        simp only [setPhase, setLease, hphases]
      rw [← hstand]
      exact hstep
    · rw [hholds] at hn
      rw [← Option.some.inj hn]
      exact Option.not_isSome_iff_eq_none.mp (Bool.eq_false_iff.mp hleased)
  | @drop name hheld hnone =>
    refine ⟨?_, fun n hn => ?_⟩
    · have hlease : Function.update s.leased name none = s.leased := by
        rw [← hfree name hheld, Function.update_eq_self]
      have hstand : ((s.stand j p).setPhase j p').setLease name none = s.stand j p' := by
        rw [stand_of_holds hheld, stand_of_none hnone]
        simp only [setPhase, setLease, hphases, Function.update_idem, hlease]
      rw [← hstand]
      exact hstep
    · rw [hnone] at hn
      cases hn

theorem alone_of_calls (hfree : ∀ name, p.holds = some name → s.leased name = none)
    (h : Relation.ReflTransGen (SelectCall (jobs j) s.occupied s.isLeased answers) p p') :
    Relation.ReflTransGen (Alone jobs answers j) (s.stand j p) (s.stand j p') ∧
      ∀ name, p'.holds = some name → s.leased name = none := by
  induction h with
  | refl => exact ⟨.refl, hfree⟩
  | tail _ hcall ih =>
    obtain ⟨hstep, hfree'⟩ := alone_of_call ih.2 hcall
    exact ⟨ih.1.tail hstep, hfree'⟩

/-- **The calls of a selection compute its result**: a job that selects while
nobody else acts ends where the two searches say, with the lease on the name it
has selected and no other trace of its selection. -/
theorem rename_selection_alone (h : s.phases j = (jobs j).begin) :
    ∃ s', Relation.ReflTransGen (Alone jobs answers j) s s' ∧
      s'.phases j = selectRenameCandidate (jobs j) s.occupied s.isLeased answers ∧
      (s'.phases j).ended = true ∧
      s'.occupied = s.occupied ∧
      (∀ k, k ≠ j → s'.phases k = s.phases k) ∧
      ∀ name, s'.leased name =
        if (s'.phases j).holds = some name then some (.job j) else s.leased name := by
  have hnone : (jobs j).begin.holds = none := by
    rw [RenameJob.begin]
    split_ifs <;> rfl
  have hstart : s.stand j (jobs j).begin = s := by
    rw [stand_of_none hnone, ← h, setPhase, Function.update_eq_self]
  have hnothing : ∀ name, (jobs j).begin.holds = some name → s.leased name = none := by
    intro name hname
    rw [hnone] at hname
    cases hname
  have hruns : Relation.ReflTransGen (Alone jobs answers j) (s.stand j (jobs j).begin) _ :=
    (alone_of_calls hnothing calls_selectRenameCandidate).1
  rw [hstart] at hruns
  have hend : (s.stand j (selectRenameCandidate (jobs j) s.occupied s.isLeased answers)).phases j =
      selectRenameCandidate (jobs j) s.occupied s.isLeased answers := by
    rw [stand_phases, Function.update_self]
  refine ⟨_, hruns, hend, ?_, stand_occupied, fun k hk => ?_, fun name => ?_⟩
  · rw [hend]
    exact selectRenameCandidate_ended
  · rw [stand_phases, Function.update_of_ne hk]
  · rw [hend]
    rcases hp : (selectRenameCandidate (jobs j) s.occupied s.isLeased answers).holds with - | n
    · rw [stand_of_none hp]
      rfl
    · rw [stand_of_holds hp]
      show Function.update s.leased n (some (.job j)) name = _
      by_cases hn : n = name
      · rw [hn, Function.update_self, if_pos rfl]
      · rw [Function.update_of_ne (Ne.symm hn), if_neg fun heq => hn (Option.some.inj heq)]

/-- `a` is there, partial output of `c` too, and job 1 is writing `b`. -/
def busyDirectory : RenameState where
  phases := Function.update usedDirectory.phases 1 (.writing (ascii ['b']))
  occupied name := someEntries name || name = partName (ascii ['b'])
  leased name := if name = ascii ['b'] then some (.job 1) else none

/-- There is a checkpoint of `c`. -/
def checkpointOfC (name : OsStr) : RenameAnswers := ⟨none, .ok (name = ascii ['c'])⟩

/-- The partial output under the other job's lease is passed over. -/
theorem rename_selection_alone_busyDirectory : ∃ s',
    Relation.ReflTransGen (Alone resumingJobs checkpointOfC 0) busyDirectory s' ∧
      s'.phases 0 = .selected (ascii ['c']) true ∧ s'.phases 1 = .writing (ascii ['b']) ∧
      s'.leased (ascii ['c']) = some (.job 0) ∧ s'.leased (ascii ['b']) = some (.job 1) := by
  have halone : ∃ s', Relation.ReflTransGen (Alone resumingJobs checkpointOfC 0)
      busyDirectory s' ∧ _ := rename_selection_alone rfl
  obtain ⟨s', hruns, hphase, -, -, hothers, hleased⟩ := halone
  have hend : s'.phases 0 = .selected (ascii ['c']) true := hphase.trans rfl
  refine ⟨s', hruns, hend, (hothers 1 (by decide)).trans rfl, ?_, ?_⟩
  · rw [hleased, hend]
    rfl
  · rw [hleased, hend]
    rfl

end RenameState

end KDown
