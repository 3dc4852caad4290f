/-
KDown/LeaseProgress.lean

The progress cell between a worker and the job's reconciliation tick
(`LeaseProgress` in `job/segmented.rs`): a worker publishes its lease record
as five words under a sequence number, and the tick reads it without a lock.
Every load and store is a step of its own and any number of readers take
part.

`snapshot_coherent` is the result for whole runs.  It is what lets
`Segmented` treat a worker's cell as one value that is written and read at
once.
-/
import KDown.SeqLock
import KDown.Scheduler

namespace KDown

/-- The five words of the record, in declaration order. -/
inductive LeaseField
  | leaseId
  | generation
  | leaseStart
  | writtenThrough
  | receivedThrough
  deriving DecidableEq, Repr

namespace LeaseRecord

/-- The field of a record. -/
def get (r : LeaseRecord) : LeaseField → ℕ
  | .leaseId => r.leaseId
  | .generation => r.generation
  | .leaseStart => r.leaseStart
  | .writtenThrough => r.writtenThrough
  | .receivedThrough => r.receivedThrough

/-- The record of its fields. -/
def ofFields (got : LeaseField → ℕ) : LeaseRecord where
  leaseId := got .leaseId
  generation := got .generation
  leaseStart := got .leaseStart
  writtenThrough := got .writtenThrough
  receivedThrough := got .receivedThrough

/-- What `clear` publishes and what the cells hold at first. -/
def idle : LeaseRecord where
  leaseId := 0
  generation := 0
  leaseStart := 0
  writtenThrough := 0
  receivedThrough := 0

end LeaseRecord

/-- The sequence word and the five record words, with one publishing worker
and the readers `ι`. -/
abbrev LeaseProgress (ι : Type*) := SeqLock LeaseField ℕ ι

/-- What the worker and the readers do. -/
inductive LeaseProgressEvent (ι : Type*)
  /-- The worker calls `publish`. -/
  | publish (record : LeaseRecord)
  | clear
  /-- The worker's next load or store. -/
  | writer
  /-- A reader calls `snapshot`. -/
  | snapshot (i : ι)
  /-- The next load of that reader. -/
  | reader (i : ι)

/-- The record a call publishes. -/
def LeaseProgressEvent.record {ι : Type*} : LeaseProgressEvent ι → Option LeaseRecord
  | .publish record => some record
  | .clear => some .idle
  | _ => none

namespace LeaseProgress

variable {ι : Type*}

/-- The cell of an idle worker. -/
def new : LeaseProgress ι := SeqLock.new LeaseRecord.idle.get

/-- The order in which `publish` stores the words and `snapshot` loads them. -/
def fields : List LeaseField :=
  [.leaseId, .generation, .leaseStart, .writtenThrough, .receivedThrough]

theorem mem_fields (f : LeaseField) : f ∈ fields := by
  rcases f with - | - | - | - | - <;> simp [fields]

/-- The last line of `snapshot`: a record with lease 0 reads as idle. -/
def snapshotResult (got : LeaseField → ℕ) : Option LeaseRecord :=
  if got .leaseId = 0 then none else some (.ofFields got)

theorem snapshotResult_eq_some {got : LeaseField → ℕ} {record : LeaseRecord}
    (h : snapshotResult got = some record) : got .leaseId ≠ 0 ∧ record = .ofFields got := by
  simp only [snapshotResult] at h
  split at h
  · exact absurd h (by simp)
  · next hne => exact ⟨hne, (Option.some.inj h).symm⟩

/-- The same event of the sequence lock. -/
def toSeqEvent : LeaseProgressEvent ι → SeqEvent LeaseField ℕ ι
  | .publish record => .publish record.get
  | .clear => .publish LeaseRecord.idle.get
  | .writer => .writer
  | .snapshot i => .snapshot i
  | .reader i => .reader i

theorem record_toSeqEvent (e : LeaseProgressEvent ι) :
    (toSeqEvent e).record = e.record.map LeaseRecord.get := by
  rcases e with r | - | - | i | i <;> rfl

variable [DecidableEq ι]

/-- One event. -/
def step (s : LeaseProgress ι) (e : LeaseProgressEvent ι) : Option (LeaseProgress ι) :=
  SeqLock.step 64 fields s (toSeqEvent e)

/-- The records in the order of their publication, with the idle record the
cells start from in front. -/
def records (es : List (LeaseProgressEvent ι)) : List LeaseRecord :=
  .idle :: es.filterMap LeaseProgressEvent.record

theorem runEvents_toSeqEvent (s : LeaseProgress ι) (es : List (LeaseProgressEvent ι)) :
    runEvents step s es = runEvents (SeqLock.step 64 fields) s (es.map toSeqEvent) := by
  induction es generalizing s with
  | nil => rfl
  | cons e es ih =>
    simp only [runEvents, List.map_cons, step, ih]

/-- The publications of a run are those of its events. -/
theorem begun_of_run {es : List (LeaseProgressEvent ι)} {s : LeaseProgress ι}
    (h : runEvents step new es = some s) :
    s.initial :: s.begun = (records es).map LeaseRecord.get := by
  rw [runEvents_toSeqEvent] at h
  obtain ⟨hbegun, hinit⟩ := SeqLock.begun_of_run h
  rw [hbegun, hinit, records, List.map_cons, List.filterMap_map, List.map_filterMap]
  congr 2
  funext e
  exact record_toSeqEvent e

/-- A complete publication is one of the run's records. -/
theorem records_of_recordAt {es : List (LeaseProgressEvent ι)} {s : LeaseProgress ι}
    (h : runEvents step new es = some s) {k : ℕ} {got : LeaseField → ℕ}
    (hk : s.recordAt k = some got) : (records es)[k]? = some (.ofFields got) := by
  have hall := SeqLock.begun_of_recordAt hk
  rw [begun_of_run h, List.getElem?_map] at hall
  obtain ⟨record, hrec, rfl⟩ := Option.map_eq_some_iff.mp hall
  exact hrec

/-- **Snapshots are coherent.**  For every interleaving of the loads and stores
of one publishing worker and any number of readers with fewer than `2 ^ 63`
publications, the results of each reader belong to records of the run, taken as
a whole, whose numbers never go down; the number lies between the publications
complete when the call began and those complete when it ended.  A record
returned is one the worker published. -/
theorem snapshot_coherent {es : List (LeaseProgressEvent ι)} {s : LeaseProgress ι}
    (hrun : runEvents step new es = some s)
    (hfew : (es.filterMap LeaseProgressEvent.record).length < 2 ^ 63) (i : ι) :
    (∃ ks : List ℕ, ks.Pairwise (· ≤ ·) ∧
      List.Forall₂ (fun k e => e.begun ≤ k ∧ k ≤ e.ended ∧
        ∃ record, (records es)[k]? = some record ∧
          snapshotResult e.result = if record.leaseId = 0 then none else some record)
        ks (s.returned i)) ∧
    ∀ e ∈ s.returned i, ∀ record, snapshotResult e.result = some record →
      record ∈ es.filterMap LeaseProgressEvent.record := by
  have hbegun : s.begun = (es.filterMap LeaseProgressEvent.record).map LeaseRecord.get :=
    (List.cons.inj (begun_of_run hrun)).2
  have hbound : 2 * s.begun.length < 2 ^ 64 := by
    rw [hbegun, List.length_map]
    omega
  have hseq := hrun
  rw [runEvents_toSeqEvent] at hseq
  have hinv := SeqLock.inv_of_run mem_fields hseq hbound
  constructor
  · obtain ⟨ks, hmono, hall⟩ := SeqLock.exists_numbers (hinv.reading i) (hinv.ordered i)
    refine ⟨ks, hmono, hall.imp fun k e hk => ⟨hk.1, hk.2.1, .ofFields e.result, ?_, rfl⟩⟩
    exact records_of_recordAt hrun hk.2.2
  · intro e he record hres
    obtain ⟨-, k, -, -, hrec⟩ := hinv.reading i e he
    obtain ⟨hlease, rfl⟩ := snapshotResult_eq_some hres
    -- the record in front has lease 0, so it is not the one returned
    rcases List.mem_cons.mp (List.mem_of_getElem? (records_of_recordAt hrun hrec)) with h | h
    · exact absurd (congrArg LeaseRecord.leaseId h) hlease
    · exact h

/-- A reader that starts before the first publication, is torn by it and
tries again. -/
def tornRun : List (LeaseProgressEvent (Fin 1)) :=
  [LeaseProgressEvent.snapshot 0, .reader 0, .reader 0, .publish ⟨7, 1, 0, 40, 50⟩] ++
    List.replicate 4 LeaseProgressEvent.writer ++ List.replicate 5 (LeaseProgressEvent.reader 0) ++
    List.replicate 4 LeaseProgressEvent.writer ++ List.replicate 7 (LeaseProgressEvent.reader 0)

/-- A reader that is disturbed by a publication starts over and returns the new
record. -/
theorem snapshot_coherent_torn :
    ∃ s : LeaseProgress (Fin 1), runEvents step new tornRun = some s ∧
      (s.returned 0).map (fun e => snapshotResult e.result) = [some ⟨7, 1, 0, 40, 50⟩] ∧
      ∀ e ∈ s.returned 0, ∀ record, snapshotResult e.result = some record →
        record ∈ tornRun.filterMap LeaseProgressEvent.record :=
  ⟨_, rfl, by decide, (@snapshot_coherent _ _ tornRun _ rfl (by decide) 0).2⟩

end LeaseProgress

end KDown
