/-
KDown/LiveSync.lean

The live view of the web client (web api/liveSync.ts, liveSyncApp.ts).

`LiveSync` is the class with what it does to the cached list: it opens the
stream, fetches the collections after a hello, buffers the snapshots that come
meanwhile and applies those it takes for newer.  `LiveClient` runs it against
the stream and the fetches, which race.

* The cached list holds a job once and is kept as a map.  What only invalidates
  other queries is left out.
* A hello reaches the class as it is on the wire, under another field name, so
  the epoch of a hello is never seen and nothing compares with it.  A missing
  epoch is `none`; so is the empty one at the start, since both are falsy.
* The stream announces what it lost, so `degraded` carries the lost snapshots.
  What the stream withholds on purpose is no event here.
* `published` are the snapshots of all connections, and a fetch carries how many
  there were when it was started; `opened` counts those before the connection
  that is open, `since` those before the fetch that completed last.  `sent` are
  the snapshots that the open connection delivered, `listed` the views of all
  pages fetched so far.

Nothing in the class ties a fetch to the connection it was started on, and
nothing compares versions: a snapshot is compared by its number with the last one
of its attempt that was applied.  `inStep` says how the server must number its
views and when fetches must resolve; it does not look at what the client has
seen or shows.  That the comparison then decides rightly is the invariant
`Tracks`: of every job, what is shown is the snapshot that was seen last, or a
page's view that covers it.

    seen = (epoch, attempt, n)  →  sent ∋ u with attempt and n,  shown covers u
-/
import KDown.JobView
import KDown.Runs

namespace KDown

namespace JobView

variable {δ : Type*}

/-- An older version, or an older sample of the attempt at the same version. -/
def older (w c : JobView δ) : Bool :=
  w.controlVersion < c.controlVersion ||
    (w.controlVersion = c.controlVersion && w.attemptId = c.attemptId && w.sampleSeq < c.sampleSeq)

/-- A newer version, or no older sample of the attempt at the same version. -/
def covers (w c : JobView δ) : Bool :=
  c.controlVersion < w.controlVersion ||
    (c.controlVersion = w.controlVersion && c.attemptId = w.attemptId && c.sampleSeq ≤ w.sampleSeq)

variable {u v w c : JobView δ}

/-- `covers`, as an order of the two stamps. -/
theorem covers_iff : w.covers c = true ↔ c.controlVersion < w.controlVersion ∨
    (c.controlVersion = w.controlVersion ∧ c.attemptId = w.attemptId ∧
      c.sampleSeq ≤ w.sampleSeq) := by
  simp [covers, and_assoc]

/-- What is not `older`, as an order of the same stamps. -/
theorem older_eq_false_iff : w.older c = false ↔ c.controlVersion ≤ w.controlVersion ∧
    (w.controlVersion = c.controlVersion → w.attemptId = c.attemptId →
      c.sampleSeq ≤ w.sampleSeq) := by
  simp [older]

theorem covers_refl (w : JobView δ) : w.covers w = true :=
  covers_iff.mpr (.inr ⟨rfl, rfl, le_rfl⟩)

theorem covers_trans (hwv : w.covers v = true) (hvu : v.covers u = true) : w.covers u = true := by
  rw [covers_iff] at *
  rcases hwv with hwv | ⟨hwv, hatt, hseq⟩
  · rcases hvu with hvu | ⟨hvu, -, -⟩
    · exact .inl (hvu.trans hwv)
    · exact .inl (hvu ▸ hwv)
  · rcases hvu with hvu | ⟨hvu, hatt', hseq'⟩
    · exact .inl (hwv ▸ hvu)
    · exact .inr ⟨hvu.trans hwv, hatt'.trans hatt, hseq'.trans hseq⟩

/-- What covers a view that is not older is not older. -/
theorem older_of_covers (hwv : w.covers v = true) (hvc : v.older c = false) :
    w.older c = false := by
  rw [covers_iff] at hwv
  rw [older_eq_false_iff] at *
  obtain ⟨hle, hsample⟩ := hvc
  rcases hwv with hwv | ⟨hwv, hatt, hseq⟩
  · refine ⟨hle.trans hwv.le, fun heq => ?_⟩
    omega
  · refine ⟨hwv ▸ hle, fun heq hsame => ?_⟩
    exact (hsample (hwv.trans heq) (hatt.trans hsame)).trans hseq

theorem older_self (w : JobView δ) : w.older w = false :=
  older_eq_false_iff.mpr ⟨le_rfl, fun _ _ => le_rfl⟩

theorem not_older_of_covers (h : w.covers c = true) : w.older c = false :=
  older_of_covers h (older_self c)

/-- Two snapshots of one job, `u` sent before `v`, are numbered as they are
versioned: within an attempt the numbers order them, and of two attempts the
later is the newer. -/
def numbered (u v : JobView δ) : Bool :=
  if u.attemptId = v.attemptId then
    (v.sampleSeq < u.sampleSeq || v.covers u) && (u.sampleSeq < v.sampleSeq || u.covers v)
  else v.covers u

/-- The view covers every view of its job in the list. -/
def coversAll (w : JobView δ) (l : List (JobView δ)) : Bool :=
  l.all fun u => u.id ≠ w.id || w.covers u

/-- All views of one job in a list are covered if each of them is. -/
theorem coversAll_iff {l : List (JobView δ)} :
    w.coversAll l = true ↔ ∀ u ∈ l, u.id = w.id → w.covers u = true := by
  simp only [coversAll, List.all_eq_true, Bool.or_eq_true, decide_eq_true_eq, ne_eq]
  exact forall₂_congr fun _ _ => or_iff_not_imp_left.trans (by rw [not_not])

/-- A snapshot of another attempt, or with a higher number, is the newer one. -/
theorem covers_of_numbered (h : numbered u v = true)
    (hnew : u.attemptId = v.attemptId → u.sampleSeq ≤ v.sampleSeq) : v.covers u = true := by
  unfold numbered at h
  split_ifs at h with hatt
  · obtain ⟨hlt | hcovers, -⟩ := by simpa using h
    · exact absurd (hnew hatt) (by omega)
    · exact hcovers
  · exact h

/-- A snapshot whose number is not higher is covered by the one before. -/
theorem covered_of_numbered (h : numbered u v = true) (hatt : u.attemptId = v.attemptId)
    (hseq : v.sampleSeq ≤ u.sampleSeq) : u.covers v = true := by
  unfold numbered at h
  rw [if_pos hatt] at h
  obtain ⟨-, hlt | hcovers⟩ := by simpa using h
  · omega
  · exact hcovers

end JobView

/-! ### The class -/

/-- The phases of the client. -/
inductive LivePhase
  | connecting
  | syncing
  | live
  | stale
  deriving DecidableEq, Repr

/-- What was seen last of a job. -/
structure SeenRevision (ε : Type*) where
  epoch : Option ε
  attemptId : Option ℕ
  sampleSeq : ℕ
  deriving DecidableEq, Repr

/-- A `job.snapshot` envelope. -/
structure SnapshotEnvelope (ε δ : Type*) where
  streamEpoch : Option ε
  job : Option (JobView δ)
  deriving DecidableEq, Repr

/-- The envelopes the class acts on. -/
inductive EventEnvelope (ε δ : Type*)
  | hello (streamEpoch : Option ε)
  | jobSnapshot (envelope : SnapshotEnvelope ε δ)
  | serviceDegraded

/-- The fetched jobs. -/
structure Collections (δ : Type*) where
  active : List (JobView δ)
  history : List (JobView δ)

/-- All fetched jobs, as both the caches and what was seen are filled. -/
def Collections.views {δ : Type*} (collections : Collections δ) : List (JobView δ) :=
  collections.active ++ collections.history

/-- The page of jobs the server lists, split by whether they are terminal. -/
def fetchCollections {δ : Type*} (page : List (JobView δ)) : Collections δ :=
  ⟨page.filter fun job => !job.status.isTerminal, page.filter fun job => job.status.isTerminal⟩

theorem mem_fetchCollections {δ : Type*} {page : List (JobView δ)} {v : JobView δ} :
    v ∈ (fetchCollections page).views ↔ v ∈ page := by
  unfold Collections.views fetchCollections
  rw [List.mem_append, List.mem_filter, List.mem_filter]
  cases v.status.isTerminal <;> simp

/-- The class, with the list it caches. -/
structure LiveSync (ε δ : Type*) where
  phase : LivePhase
  epoch : Option ε
  buffer : List (SnapshotEnvelope ε δ)
  seen : SortedMap ℕ (SeenRevision ε)
  cache : SortedMap ℕ (JobView δ)

/-- The comparison of epochs, which is false when one is missing. -/
def epochLt {ε : Type*} [LinearOrder ε] : Option ε → Option ε → Bool
  | some e, some e' => e < e'
  | _, _ => false

/-- The snapshot is taken for newer than what was seen of the job. -/
def supersedes {ε δ : Type*} [LinearOrder ε] (current : Option (SeenRevision ε))
    (streamEpoch : Option ε) (view : JobView δ) : Bool :=
  match current with
  | none => true
  | some current =>
      if streamEpoch ≠ current.epoch then !epochLt streamEpoch current.epoch
      else if view.attemptId ≠ current.attemptId then true
      else current.sampleSeq < view.sampleSeq

/-- The cached list that shows the given views. -/
def replaceCaches {δ : Type*} (views : List (JobView δ)) : SortedMap ℕ (JobView δ) :=
  views.foldl (fun cache view => cache.insert view.id view) .empty

namespace LiveSync

variable {ε δ : Type*} [LinearOrder ε]

/-- Mutations are enabled. -/
def canMutate (s : LiveSync ε δ) : Bool := s.phase = .live

/-- Show a snapshot, if it is taken for newer. -/
def applySnapshot (s : LiveSync ε δ) (envelope : SnapshotEnvelope ε δ) : LiveSync ε δ :=
  match envelope.job with
  | none => s
  | some view =>
      if supersedes (s.seen.get? view.id) envelope.streamEpoch view then
        { s with
          seen := s.seen.insert view.id
            ⟨envelope.streamEpoch <|> s.epoch, view.attemptId, view.sampleSeq⟩
          cache := s.cache.insert view.id view }
      else s

/-- The stream breaks off, or a fetch after a hello fails. -/
def onDisconnected (s : LiveSync ε δ) : LiveSync ε δ := { s with phase := .stale, buffer := [] }

/-- A new epoch supersedes everything held for the previous one. -/
def adoptEpoch (s : LiveSync ε δ) (streamEpoch : Option ε) : LiveSync ε δ :=
  match streamEpoch, s.epoch with
  | some e, some e' => if e ≠ e' then { s with epoch := some e, seen := .empty } else s
  | _, _ => s

/-- One event of the stream. -/
def onEvent (s : LiveSync ε δ) : EventEnvelope ε δ → LiveSync ε δ
  | .hello streamEpoch => { s with epoch := streamEpoch, phase := .syncing }
  | .jobSnapshot envelope =>
      let s := s.adoptEpoch envelope.streamEpoch
      match s.phase with
      | .syncing => { s with buffer := s.buffer ++ [envelope] }
      | .live => s.applySnapshot envelope
      | .connecting | .stale => s
  | .serviceDegraded => { s with phase := .stale }

/-- The caches and what was seen, as a fetch after a hello leaves them. -/
def install (s : LiveSync ε δ) (collections : Collections δ) : LiveSync ε δ :=
  { s with
    cache := replaceCaches collections.views
    seen := collections.views.foldl (fun seen view =>
      seen.insert view.id ⟨s.epoch, view.attemptId, view.sampleSeq⟩) .empty
    buffer := [] }

/-- The cached lists that the buffered snapshots lead through. -/
def replayed (s : LiveSync ε δ) : List (SnapshotEnvelope ε δ) → List (SortedMap ℕ (JobView δ))
  | [] => []
  | envelope :: rest =>
      (s.applySnapshot envelope).cache :: (s.applySnapshot envelope).replayed rest

/-- The fetch of a hello resolves. -/
def handshakeFetched (s : LiveSync ε δ) (collections : Collections δ) : LiveSync ε δ :=
  { s.buffer.foldl applySnapshot (s.install collections) with phase := .live }

/-- The fetch of a degraded period resolves. -/
def degradedFetched (s : LiveSync ε δ) (collections : Collections δ) : LiveSync ε δ :=
  { s with cache := replaceCaches collections.views, phase := .live }

end LiveSync

/-! ### The client against its stream and fetches -/

/-- Why a fetch was started. -/
inductive FetchKind
  | handshake
  | degraded
  deriving DecidableEq, Repr

/-- A fetch under way: why and on which connection it was started, and how many
snapshots were published before. -/
structure Fetch where
  kind : FetchKind
  connection : ℕ
  start : ℕ
  deriving DecidableEq, Repr

/-- What the stream and the fetches bring. -/
inductive ClientEvent (ε δ : Type*)
  | hello (epoch : ε)
  | snapshot (epoch : ε) (view : JobView δ)
  | degraded (lost : List (JobView δ))
  | disconnect
  | resolve (i : ℕ) (page : List (JobView δ))
  | reject (i : ℕ)

/-- The client with its fetches, and what has been sent to it. -/
structure LiveClient (ε δ : Type*) where
  sync : LiveSync ε δ
  fetches : List Fetch
  connected : Bool
  connection : ℕ
  handshook : Bool
  /-- The epoch of the server that the connection leads to. -/
  epoch : Option ε
  published : List (JobView δ)
  opened : ℕ
  sent : List (JobView δ)
  listed : List (JobView δ)
  since : ℕ

namespace LiveClient

variable {ε δ : Type*} [LinearOrder ε]

/-- The fetch was started on the connection that is open now. -/
def isCurrent (s : LiveClient ε δ) (f : Fetch) : Bool :=
  s.connected && f.connection = s.connection

/-- The snapshots published after the fetch that completed last. -/
def due (s : LiveClient ε δ) : List (JobView δ) := s.published.drop s.since

/-- What is done with the fetched page. -/
def fetched (s : LiveClient ε δ) (f : Fetch) (page : List (JobView δ)) : LiveClient ε δ :=
  match f.kind with
  | .handshake =>
      { s with
        sync := s.sync.handshakeFetched (fetchCollections page)
        handshook := s.handshook || s.isCurrent f
        listed := s.listed ++ page
        since := f.start }
  | .degraded =>
      { s with
        sync := s.sync.degradedFetched (fetchCollections page)
        listed := s.listed ++ page
        since := f.start }

/-- One event. -/
def step (s : LiveClient ε δ) : ClientEvent ε δ → Option (LiveClient ε δ)
  | .hello epoch =>
      if s.connected then none
      else
        -- the wire's field is `stream_epoch`, so `streamEpoch` is missing
        some { s with
          sync := s.sync.onEvent (.hello none)
          fetches := s.fetches ++ [⟨.handshake, s.connection + 1, s.published.length⟩]
          connected := true
          connection := s.connection + 1
          handshook := false
          epoch := some epoch
          opened := s.published.length
          sent := [] }
  | .snapshot epoch view =>
      if s.connected then
        some { s with
          sync := s.sync.onEvent (.jobSnapshot ⟨some epoch, some view⟩)
          published := s.published ++ [view]
          sent := s.sent ++ [view] }
      else none
  | .degraded lost =>
      if s.connected then
        some { s with
          sync := s.sync.onEvent .serviceDegraded
          fetches := s.fetches ++ [⟨.degraded, s.connection, (s.published ++ lost).length⟩]
          published := s.published ++ lost }
      else none
  | .disconnect =>
      some { s with sync := s.sync.onDisconnected, connected := false, handshook := false }
  | .resolve i page =>
      (s.fetches[i]?).map fun f => { s.fetched f page with fetches := s.fetches.eraseIdx i }
  | .reject i =>
      (s.fetches[i]?).map fun f =>
        match f.kind with
        | .handshake => { s with sync := s.sync.onDisconnected, fetches := s.fetches.eraseIdx i }
        | .degraded => { s with fetches := s.fetches.eraseIdx i }

/-- The cached lists that an event leads through, one for each replacement. -/
def shownBy (s : LiveClient ε δ) : ClientEvent ε δ → List (SortedMap ℕ (JobView δ))
  | .snapshot epoch view => [(s.sync.onEvent (.jobSnapshot ⟨some epoch, some view⟩)).cache]
  | .resolve i page =>
      let installed := s.sync.install (fetchCollections page)
      (s.fetches[i]?).elim [] fun f =>
        match f.kind with
        | .handshake => installed.cache :: installed.replayed s.sync.buffer
        | .degraded => [installed.cache]
  | .hello _ | .degraded _ | .disconnect | .reject _ => []

/-- A page that has just been loaded. -/
structure Starts (s : LiveClient ε δ) : Prop where
  phase : s.sync.phase = .connecting
  epoch : s.sync.epoch = none
  buffer : s.sync.buffer = []
  cache : s.sync.cache = .empty
  fetches : s.fetches = []
  connected : s.connected = false
  handshook : s.handshook = false
  opened : s.opened = 0
  sent : s.sent = []

/-! ### Steps that stay in step with the server -/

/-- A snapshot is in step: it is of the server that said hello; it is numbered
after what the connection sent of its job; and it covers what was sent of it
before and what the pages listed. -/
def snapshotInStep (s : LiveClient ε δ) (epoch : ε) (view : JobView δ) : Bool :=
  s.epoch = some epoch &&
    (s.sent.all fun u => u.id ≠ view.id || JobView.numbered u view) &&
    view.coversAll (s.published.take s.opened ++ s.listed)

/-- The fetch of a hello is in step: the client is still waiting for it, and its
page is as of its start, no older than what was sent before it and no newer than
what the connection has sent since. -/
def handshakeInStep (s : LiveClient ε δ) (f : Fetch) (page : List (JobView δ)) : Bool :=
  s.sync.phase = .syncing &&
    (page.all fun w => w.coversAll (s.published.take f.start ++ s.listed)) &&
    s.sent.all fun u => u.coversAll page

/-- The fetch of a degraded period is in step: the handshake is complete, and
the page is as of the end of the fetch and has every job the connection has
announced. -/
def degradedInStep (s : LiveClient ε δ) (page : List (JobView δ)) : Bool :=
  s.handshook &&
    (page.all fun w => w.coversAll (s.published ++ s.listed)) &&
    (s.published.drop s.opened).all fun u => page.any fun w => w.id = u.id

/-- A fetch resolves on the connection it was started on. -/
def resolveInStep (s : LiveClient ε δ) (f : Fetch) (page : List (JobView δ)) : Bool :=
  s.isCurrent f &&
    match f.kind with
    | .handshake => s.handshakeInStep f page
    | .degraded => s.degradedInStep page

/-- The server numbers its views as it versions them, and fetches resolve in
time. -/
def inStep (s : LiveClient ε δ) : ClientEvent ε δ → Bool
  | .snapshot epoch view => s.snapshotInStep epoch view
  | .resolve i page => (s.fetches[i]?).all fun f => s.resolveInStep f page
  | .hello _ | .degraded _ | .disconnect | .reject _ => true

end LiveClient

/-! ### Cached lists -/

section Caches

variable {δ : Type*} {cache cache' cache'' : SortedMap ℕ (JobView δ)} {views : List (JobView δ)}
variable {v w : JobView δ} {j : ℕ}

/-- The cached list shows the view or something newer of the job. -/
def reflects (cache : SortedMap ℕ (JobView δ)) (view : JobView δ) : Prop :=
  ∃ c, cache.get? view.id = some c ∧ c.covers view = true

theorem get?_foldl_insert {m : SortedMap ℕ (JobView δ)}
    (h : (views.foldl (fun cache view => cache.insert view.id view) m).get? j = some w) :
    (w ∈ views ∧ w.id = j) ∨ m.get? j = some w := by
  induction views generalizing m with
  | nil => exact .inr h
  | cons v views ih =>
    rcases ih h with ⟨hmem, hid⟩ | hm
    · exact .inl ⟨List.mem_cons_of_mem _ hmem, hid⟩
    · rw [SortedMap.get?_insert] at hm
      split_ifs at hm with hj
      · cases hm
        exact .inl ⟨List.mem_cons_self, hj.symm⟩
      · exact .inr hm

theorem get?_replaceCaches (h : (replaceCaches views).get? j = some w) : w ∈ views ∧ w.id = j := by
  rcases get?_foldl_insert h with h | h
  · exact h
  · cases h

/-- The list shows every job of the page. -/
theorem replaceCaches_isSome (hv : v ∈ views) : ∃ w, (replaceCaches views).get? v.id = some w := by
  have hkeep : ∀ (views : List (JobView δ)) (m : SortedMap ℕ (JobView δ)),
      (∃ w, m.get? v.id = some w) →
      ∃ w, (views.foldl (fun cache view => cache.insert view.id view) m).get? v.id = some w := by
    intro views
    induction views with
    | nil => exact fun m hm => hm
    | cons u views ih =>
      rintro m ⟨w, hw⟩
      refine ih _ ?_
      rw [SortedMap.get?_insert]
      split_ifs with hj
      · exact ⟨u, rfl⟩
      · exact ⟨w, hw⟩
  obtain ⟨before, after, rfl⟩ := List.append_of_mem hv
  unfold replaceCaches
  rw [List.foldl_append, List.foldl_cons]
  exact hkeep after _ ⟨v, SortedMap.get?_insert_self ..⟩

/-- A page that has a job and covers its snapshots reflects them. -/
theorem page_reflects {page sent : List (JobView δ)}
    (hcovers : ∀ w ∈ page, w.coversAll sent = true)
    (hjobs : ∀ u ∈ sent, ∃ w ∈ page, w.id = u.id) (hv : v ∈ sent) :
    ∃ c ∈ page, (replaceCaches (fetchCollections page).views).get? v.id = some c ∧
      c.covers v = true := by
  obtain ⟨w, hw, hid⟩ := hjobs v hv
  obtain ⟨c, hc⟩ := replaceCaches_isSome (mem_fetchCollections.mpr hw)
  rw [hid] at hc
  obtain ⟨hmem, hcid⟩ := get?_replaceCaches hc
  have hpage := mem_fetchCollections.mp hmem
  exact ⟨c, hpage, hc, JobView.coversAll_iff.mp (hcovers c hpage) v hv hcid.symm⟩

/-- Every cached view is still there or was replaced by one that covers it. -/
def Advances (cache cache' : SortedMap ℕ (JobView δ)) : Prop :=
  ∀ j c, cache.get? j = some c → ∃ w, cache'.get? j = some w ∧ w.covers c = true

theorem Advances.refl (cache : SortedMap ℕ (JobView δ)) : Advances cache cache :=
  fun _ c hc => ⟨c, hc, c.covers_refl⟩

theorem Advances.trans (h : Advances cache cache') (h' : Advances cache' cache'') :
    Advances cache cache'' := by
  intro j c hc
  obtain ⟨w, hw, hwc⟩ := h j c hc
  obtain ⟨u, hu, huw⟩ := h' j w hw
  exact ⟨u, hu, JobView.covers_trans huw hwc⟩

theorem Advances.reflects (h : Advances cache cache') (hv : KDown.reflects cache v) :
    KDown.reflects cache' v := by
  obtain ⟨c, hc, hcv⟩ := hv
  obtain ⟨w, hw, hwc⟩ := h v.id c hc
  exact ⟨w, hw, JobView.covers_trans hwc hcv⟩

/-- No view is replaced by an older one of its job. -/
def NeverOlder (cache cache' : SortedMap ℕ (JobView δ)) : Prop :=
  ∀ j c w, cache.get? j = some c → cache'.get? j = some w → w.older c = false

theorem NeverOlder.refl (cache : SortedMap ℕ (JobView δ)) : NeverOlder cache cache := by
  intro j c w hc hw
  cases hc.symm.trans hw
  exact c.older_self

theorem Advances.neverOlder (h : Advances cache cache') : NeverOlder cache cache' := by
  intro j c w hc hw
  obtain ⟨u, hu, huc⟩ := h j c hc
  cases hu.symm.trans hw
  exact JobView.not_older_of_covers huc

/-- Advancing after a replacement by views that are not older. -/
theorem NeverOlder.trans_advances (h : NeverOlder cache cache') (h' : Advances cache' cache'')
    (hnew : ∀ j c w, cache.get? j = some c → cache'.get? j = none → cache''.get? j = some w →
      w.older c = false) : NeverOlder cache cache'' := by
  intro j c w hc hw
  rcases hmid : cache'.get? j with _ | u
  · exact hnew j c w hc hmid hw
  · obtain ⟨x, hx, hxu⟩ := h' j u hmid
    cases hx.symm.trans hw
    exact JobView.older_of_covers hxu (h j c u hc hmid)

end Caches

/-! ### What was seen and what is shown -/

namespace LiveSync

variable {ε δ : Type*} [LinearOrder ε] {s : LiveSync ε δ} {e : ε}
variable {sent listed l : List (JobView δ)} {v w : JobView δ} {j : ℕ}

/-- The envelope of a snapshot. -/
def envelopeOf (e : ε) (v : JobView δ) : SnapshotEnvelope ε δ := ⟨some e, some v⟩

/-- What was seen of a job tells what is shown of it: an epoch that was seen is
that of the connection, and its number is that of a sent snapshot, which is shown
or covered by a page's view; otherwise a page's view is shown. -/
structure Tracks (s : LiveSync ε δ) (e : ε) (sent listed : List (JobView δ)) : Prop where
  ids : ∀ j c, s.cache.get? j = some c → c.id = j
  paged : ∀ j c, s.cache.get? j = some c →
    (∀ r, s.seen.get? j = some r → r.epoch = none) → c ∈ listed
  followed : ∀ j r e', s.seen.get? j = some r → r.epoch = some e' → e' = e ∧
    ∃ u ∈ sent, u.id = j ∧ u.attemptId = r.attemptId ∧ u.sampleSeq = r.sampleSeq ∧
      ∃ c, s.cache.get? j = some c ∧ c.covers u = true ∧ (c = u ∨ c ∈ listed)

/-- An applied snapshot is shown and seen. -/
theorem applySnapshot_of_supersedes
    (h : supersedes (s.seen.get? v.id) (some e) v = true) :
    s.applySnapshot (envelopeOf e v) =
      { s with
        seen := s.seen.insert v.id ⟨some e, v.attemptId, v.sampleSeq⟩
        cache := s.cache.insert v.id v } := by
  simp only [applySnapshot, envelopeOf, h, if_true]
  rfl

theorem applySnapshot_of_not_supersedes
    (h : supersedes (s.seen.get? v.id) (some e) v = false) :
    s.applySnapshot (envelopeOf e v) = s := by
  simp only [applySnapshot, envelopeOf, h]
  rfl

/-- A snapshot that is taken for newer covers what is shown of its job. -/
theorem Tracks.covers (h : s.Tracks e sent listed)
    (hnum : ∀ u ∈ sent, u.id = v.id → JobView.numbered u v = true)
    (hlisted : v.coversAll listed = true)
    (hnew : supersedes (s.seen.get? v.id) (some e) v = true) {c : JobView δ}
    (hc : s.cache.get? v.id = some c) : v.covers c = true := by
  have hpage : c ∈ listed → v.covers c = true := fun hmem =>
    JobView.coversAll_iff.mp hlisted c hmem (h.ids _ _ hc)
  rcases hseen : s.seen.get? v.id with _ | r
  · exact hpage (h.paged _ _ hc fun r hr => by rw [hseen] at hr; cases hr)
  rcases hepoch : r.epoch with _ | e'
  · refine hpage (h.paged _ _ hc fun r' hr' => ?_)
    cases hseen.symm.trans hr'
    exact hepoch
  obtain ⟨rfl, u, hu, hid, hatt, hseq, c', hc', -, hcu⟩ := h.followed _ _ _ hseen hepoch
  cases hc.symm.trans hc'
  rcases hcu with rfl | hmem
  · -- shown as it was sent: the numbers decide
    refine JobView.covers_of_numbered (hnum c hu hid) fun hsame => ?_
    simp only [supersedes, hseen, hepoch, ne_eq, not_true_eq_false, if_false] at hnew
    rw [if_neg (not_not.mpr (hsame.symm.trans hatt)), ← hseq] at hnew
    exact (decide_eq_true_eq.mp hnew).le
  · exact hpage hmem

/-- A snapshot that is not taken for newer is covered by what is shown. -/
theorem Tracks.covered (h : s.Tracks e sent listed)
    (hnum : ∀ u ∈ sent, u.id = v.id → JobView.numbered u v = true)
    (hold : supersedes (s.seen.get? v.id) (some e) v = false) : reflects s.cache v := by
  rcases hseen : s.seen.get? v.id with _ | r
  · rw [hseen] at hold
    cases hold
  rcases hepoch : r.epoch with _ | e'
  · simp [supersedes, hseen, hepoch, epochLt] at hold
  obtain ⟨rfl, u, hu, hid, hatt, hseq, c, hc, hcu, -⟩ := h.followed _ _ _ hseen hepoch
  simp only [supersedes, hseen, hepoch, ne_eq, not_true_eq_false, if_false] at hold
  split_ifs at hold with hdiffer
  · -- of the same attempt, with no higher number
    have hsame : u.attemptId = v.attemptId := hatt.trans hdiffer.symm
    have hle : v.sampleSeq ≤ u.sampleSeq := by
      rw [hseq]
      exact not_lt.mp (of_decide_eq_false hold)
    exact ⟨c, hc, JobView.covers_trans hcu (JobView.covered_of_numbered (hnum u hu hid) hsame hle)⟩

/-- One snapshot, in step: the list advances and shows it, and the tracking goes
on. -/
theorem Tracks.apply (h : s.Tracks e sent listed)
    (hnum : ∀ u ∈ sent, u.id = v.id → JobView.numbered u v = true)
    (hlisted : v.coversAll listed = true) :
    (s.applySnapshot (envelopeOf e v)).Tracks e (sent ++ [v]) listed ∧
      Advances s.cache (s.applySnapshot (envelopeOf e v)).cache ∧
      reflects (s.applySnapshot (envelopeOf e v)).cache v := by
  rcases hnew : supersedes (s.seen.get? v.id) (some e) v with _ | _
  · rw [applySnapshot_of_not_supersedes hnew]
    refine ⟨⟨h.ids, h.paged, fun j r e' hr he' => ?_⟩, .refl _, h.covered hnum hnew⟩
    obtain ⟨he, u, hu, hrest⟩ := h.followed j r e' hr he'
    exact ⟨he, u, List.mem_append_left _ hu, hrest⟩
  · rw [applySnapshot_of_supersedes hnew]
    refine ⟨⟨fun j c hc => ?_, fun j c hc hseen => ?_, fun j r e' hr he' => ?_⟩, fun j c hc => ?_,
      v, SortedMap.get?_insert_self .., v.covers_refl⟩
    · rw [SortedMap.get?_insert] at hc
      split_ifs at hc with hj
      · cases hc
        exact hj.symm
      · exact h.ids j c hc
    · rw [SortedMap.get?_insert] at hc
      split_ifs at hc with hj
      · -- the snapshot's own entry has an epoch
        have hno := hseen _ (by rw [hj]; exact SortedMap.get?_insert_self ..)
        cases hno
      · refine h.paged j c hc fun r hr => hseen r ?_
        show (s.seen.insert v.id _).get? j = some r
        rw [SortedMap.get?_insert_of_ne _ _ hj, hr]
    · change (s.seen.insert v.id _).get? j = some r at hr
      rw [SortedMap.get?_insert] at hr
      split_ifs at hr with hj
      · cases hr
        refine ⟨(Option.some.inj he').symm, v, List.mem_append_right _ (List.mem_singleton.mpr rfl),
          hj.symm, rfl, rfl, v, ?_, v.covers_refl, .inl rfl⟩
        rw [hj]
        exact SortedMap.get?_insert_self ..
      · obtain ⟨he, u, hu, hid, hatt, hseq, c, hc, hrest⟩ := h.followed j r e' hr he'
        refine ⟨he, u, List.mem_append_left _ hu, hid, hatt, hseq, c, ?_, hrest⟩
        show (s.cache.insert v.id v).get? j = some c
        rw [SortedMap.get?_insert_of_ne _ _ hj, hc]
    · rcases eq_or_ne j v.id with rfl | hne
      · exact ⟨v, SortedMap.get?_insert_self .., h.covers hnum hlisted hnew hc⟩
      · refine ⟨c, ?_, c.covers_refl⟩
        show (s.cache.insert v.id v).get? j = some c
        rw [SortedMap.get?_insert_of_ne _ _ hne, hc]

/-- A list of snapshots, each in step: every replacement advances the list, and
at the end all of them are shown. -/
theorem Tracks.replay (h : s.Tracks e sent listed)
    (hnum : (sent ++ l).Pairwise fun u v => u.id = v.id → JobView.numbered u v = true)
    (hlisted : ∀ v ∈ l, v.coversAll listed = true) :
    ((l.map (envelopeOf e)).foldl applySnapshot s).Tracks e (sent ++ l) listed ∧
      List.IsChain Advances (s.cache :: s.replayed (l.map (envelopeOf e))) ∧
      Advances s.cache ((l.map (envelopeOf e)).foldl applySnapshot s).cache ∧
      ∀ v ∈ l, reflects ((l.map (envelopeOf e)).foldl applySnapshot s).cache v := by
  induction l generalizing s sent with
  | nil =>
    rw [List.append_nil]
    exact ⟨h, .singleton _, .refl _, fun v hv => by cases hv⟩
  | cons v l ih =>
    have hafter : ∀ u ∈ sent, u.id = v.id → JobView.numbered u v = true := fun u hu =>
      (List.pairwise_append.mp hnum).2.2 u hu v List.mem_cons_self
    obtain ⟨htracks, hadvances, hshown⟩ := h.apply hafter (hlisted v List.mem_cons_self)
    have hsplit : sent ++ v :: l = (sent ++ [v]) ++ l := by simp
    rw [hsplit] at hnum ⊢
    obtain ⟨hend, hchain, hrest, hall⟩ :=
      ih htracks hnum fun u hu => hlisted u (List.mem_cons_of_mem _ hu)
    refine ⟨hend, List.isChain_cons_cons.mpr ⟨hadvances, hchain⟩, hadvances.trans hrest,
      fun u hu => ?_⟩
    rcases List.mem_cons.mp hu with rfl | hu
    · -- later snapshots only advance the list
      exact hrest.reflects hshown
    · exact hall u hu

theorem applySnapshot_get? {envelope : SnapshotEnvelope ε δ}
    (h : (s.applySnapshot envelope).cache.get? j = some w) :
    s.cache.get? j = some w ∨ (envelope.job = some w ∧ w.id = j) := by
  unfold applySnapshot at h
  split at h
  · exact .inl h
  next view hjob =>
  split_ifs at h
  · simp only [SortedMap.get?_insert] at h
    split_ifs at h with hj
    · cases h
      exact .inr ⟨hjob, hj.symm⟩
    · exact .inl h
  · exact .inl h

@[simp] theorem applySnapshot_epoch (envelope : SnapshotEnvelope ε δ) :
    (s.applySnapshot envelope).epoch = s.epoch := by
  unfold applySnapshot
  split
  · rfl
  · split_ifs <;> rfl

@[simp] theorem applySnapshot_phase (envelope : SnapshotEnvelope ε δ) :
    (s.applySnapshot envelope).phase = s.phase := by
  unfold applySnapshot
  split
  · rfl
  · split_ifs <;> rfl

theorem foldl_applySnapshot_epoch (envelopes : List (SnapshotEnvelope ε δ)) :
    (envelopes.foldl applySnapshot s).epoch = s.epoch := by
  induction envelopes generalizing s with
  | nil => rfl
  | cons envelope rest ih => exact ih.trans (applySnapshot_epoch envelope)

/-- The replacements end with the list that is cached at the end. -/
theorem replayed_getLast? (envelopes : List (SnapshotEnvelope ε δ)) :
    (s.cache :: s.replayed envelopes).getLast? = some (envelopes.foldl applySnapshot s).cache := by
  induction envelopes generalizing s with
  | nil => rfl
  | cons envelope rest ih =>
    rw [replayed, List.getLast?_cons_cons]
    exact ih

/-- What is shown after a list of snapshots is one of them or was shown
before. -/
theorem foldl_applySnapshot_get? {envelopes : List (SnapshotEnvelope ε δ)}
    (h : (envelopes.foldl applySnapshot s).cache.get? j = some w) :
    s.cache.get? j = some w ∨ ∃ envelope ∈ envelopes, envelope.job = some w ∧ w.id = j := by
  induction envelopes generalizing s with
  | nil => exact .inl h
  | cons envelope rest ih =>
    rcases ih h with h | ⟨envelope', he', hw⟩
    · rcases applySnapshot_get? h with h | h
      · exact .inl h
      · exact .inr ⟨envelope, List.mem_cons_self, h⟩
    · exact .inr ⟨envelope', List.mem_cons_of_mem _ he', hw⟩

omit [LinearOrder ε] in
/-- What a fetch leaves as seen carries the client's epoch. -/
theorem install_epoch {collections : Collections δ} {r : SeenRevision ε}
    (h : (s.install collections).seen.get? j = some r) : r.epoch = s.epoch := by
  have hfold : ∀ (views : List (JobView δ)) (m : SortedMap ℕ (SeenRevision ε)),
      (∀ r, m.get? j = some r → r.epoch = s.epoch) → ∀ r,
      (views.foldl (fun seen view =>
        seen.insert view.id ⟨s.epoch, view.attemptId, view.sampleSeq⟩) m).get? j = some r →
      r.epoch = s.epoch := by
    intro views
    induction views with
    | nil => exact fun m hm => hm
    | cons view views ih =>
      intro m hm
      refine ih _ fun r hr => ?_
      rw [SortedMap.get?_insert] at hr
      split_ifs at hr with hj
      · cases hr
        rfl
      · exact hm r hr
  exact hfold collections.views .empty (fun r hr => by cases hr) r h

omit [LinearOrder ε] in
/-- After a fetch every shown view is a page's, and no epoch was seen. -/
theorem Tracks.install {page : List (JobView δ)} (hepoch : s.epoch = none) :
    (s.install (fetchCollections page)).Tracks e [] (listed ++ page) where
  ids j c hc := (get?_replaceCaches hc).2
  paged j c hc _ :=
    List.mem_append_right _ (mem_fetchCollections.mp (get?_replaceCaches hc).1)
  followed j r e' hr he' := by
    rw [install_epoch hr, hepoch] at he'
    cases he'

omit [LinearOrder ε] in
/-- The tracking is about the list and what was seen. -/
theorem Tracks.of_eq {s' : LiveSync ε δ} (h : s.Tracks e sent listed) (hcache : s'.cache = s.cache)
    (hseen : s'.seen = s.seen) : s'.Tracks e sent listed where
  ids := hcache ▸ h.ids
  paged := by
    rw [hcache, hseen]
    exact h.paged
  followed := by
    rw [hcache, hseen]
    exact h.followed

omit [LinearOrder ε] in
/-- A snapshot that the client ignores does not disturb the tracking. -/
theorem Tracks.ignore (h : s.Tracks e sent listed) : s.Tracks e (sent ++ [v]) listed where
  ids := h.ids
  paged := h.paged
  followed j r e' hr he' := by
    obtain ⟨he, u, hu, hrest⟩ := h.followed j r e' hr he'
    exact ⟨he, u, List.mem_append_left _ hu, hrest⟩

omit [LinearOrder ε] in
/-- The page of a degraded period replaces the list and not what was seen; it
covers what the connection sent, and has its jobs. -/
theorem Tracks.degraded (h : s.Tracks e sent listed) {page : List (JobView δ)}
    (hcovers : ∀ w ∈ page, w.coversAll sent = true)
    (hjobs : ∀ u ∈ sent, ∃ w ∈ page, w.id = u.id) :
    (s.degradedFetched (fetchCollections page)).Tracks e sent (listed ++ page) where
  ids j c hc := (get?_replaceCaches hc).2
  paged j c hc _ :=
    List.mem_append_right _ (mem_fetchCollections.mp (get?_replaceCaches hc).1)
  followed j r e' hr he' := by
    obtain ⟨he, u, hu, rfl, hatt, hseq, -⟩ := h.followed j r e' hr he'
    obtain ⟨c, hmem, hc, hcu⟩ := page_reflects hcovers hjobs hu
    exact ⟨he, u, hu, rfl, hatt, hseq, c, hc, hcu, .inr (List.mem_append_right _ hmem)⟩

end LiveSync

/-! ### The invariant -/

namespace LiveClient

variable {ε δ : Type*} [LinearOrder ε] {s s' : LiveClient ε δ}
variable {f : Fetch} {page : List (JobView δ)} {v w : JobView δ} {j : ℕ}

/-- While the client waits for the fetch of the hello, everything that the
connection has sent is buffered, and what is shown was sent or listed before. -/
structure Syncing (s : LiveClient ε δ) : Prop where
  sent : s.published.drop s.opened = s.sent
  buffered : ∃ e, s.epoch = some e ∧ s.sync.buffer = s.sent.map (LiveSync.envelopeOf e)
  shown : ∀ j c, s.sync.cache.get? j = some c → c ∈ s.published.take s.opened ++ s.listed
  fresh : ∀ u ∈ s.sent, u.coversAll (s.published.take s.opened ++ s.listed) = true

/-- What holds along the runs that are in step. -/
structure InSync (s : LiveClient ε δ) : Prop where
  epoch : s.sync.epoch = none
  idle : s.connected = false → s.sync.buffer = []
  opened : s.opened ≤ s.published.length
  current : ∀ f ∈ s.fetches, f.connection ≤ s.connection ∧
    (f.connection = s.connection → s.opened ≤ f.start ∧ (f.kind = .handshake → f.start = s.opened))
  sent : ∀ u ∈ s.sent, u ∈ s.published.drop s.opened
  numbered : s.sent.Pairwise fun u v => u.id = v.id → JobView.numbered u v = true
  shown : ∀ j c, s.sync.cache.get? j = some c → c.id = j ∧ c ∈ s.published ++ s.listed
  syncing : s.sync.phase = .syncing → s.Syncing
  handshook : s.handshook = true →
    s.connected = true ∧ ∃ e, s.epoch = some e ∧ s.sync.Tracks e s.sent s.listed
  live : s.sync.phase = .live → s.handshook = true ∧ ∀ v ∈ s.due, reflects s.sync.cache v

/-- A step that is in step: the invariant goes on, and no replacement on the way
shows an older view. -/
structure Synced (s s' : LiveClient ε δ) (lists : List (SortedMap ℕ (JobView δ))) : Prop where
  inSync : s'.InSync
  ends : (s.sync.cache :: lists).getLast? = some s'.sync.cache
  chain : List.IsChain NeverOlder (s.sync.cache :: lists)
  neverOlder : NeverOlder s.sync.cache s'.sync.cache

omit [LinearOrder ε] in
/-- At the start nothing has been fetched and nothing is connected. -/
theorem InSync.of_starts (h : s.Starts) : s.InSync where
  epoch := h.epoch
  idle _ := h.buffer
  opened := h.opened ▸ Nat.zero_le _
  current f hf := by
    rw [h.fetches] at hf
    cases hf
  sent u hu := by
    rw [h.sent] at hu
    cases hu
  numbered := h.sent ▸ .nil
  shown j c hc := by
    rw [h.cache] at hc
    cases hc
  syncing hphase := by
    rw [h.phase] at hphase
    cases hphase
  handshook hno := by
    rw [h.handshook] at hno
    cases hno
  live hphase := by
    rw [h.phase] at hphase
    cases hphase

omit [LinearOrder ε] in
/-- An event that touches no cached list. -/
theorem Synced.of_inSync (h : s'.InSync) (hcache : s'.sync.cache = s.sync.cache) :
    Synced s s' [] where
  inSync := h
  ends := by rw [hcache]; rfl
  chain := .singleton _
  neverOlder := hcache ▸ .refl _

omit [LinearOrder ε] in
/-- An event that replaces the list once. -/
theorem Synced.of_once (h : s'.InSync) (hnever : NeverOlder s.sync.cache s'.sync.cache) :
    Synced s s' [s'.sync.cache] where
  inSync := h
  ends := rfl
  chain := List.isChain_cons_cons.mpr ⟨hnever, .singleton _⟩
  neverOlder := hnever

/-! ### Steps -/

/-- A hello, which nothing is shown of. -/
theorem InSync.hello (h : s.InSync) {epoch : ε} (hs : s.step (.hello epoch) = some s') :
    s'.InSync := by
  simp only [step] at hs
  split_ifs at hs with hconnected
  cases hs
  exact
    { epoch := rfl
      idle := fun hno => by cases hno
      opened := le_rfl
      current := fun f hf => by
        rcases List.mem_append.mp hf with hf | hf
        · -- the fetches of earlier connections
          have hle := (h.current f hf).1
          refine ⟨hle.trans (Nat.le_succ _), fun heq => ?_⟩
          change f.connection = s.connection + 1 at heq
          omega
        · cases List.mem_singleton.mp hf
          exact ⟨le_rfl, fun _ => ⟨le_rfl, fun _ => rfl⟩⟩
      sent := fun u hu => by cases hu
      numbered := .nil
      shown := h.shown
      syncing := fun _ =>
        { sent := List.drop_length
          buffered := ⟨epoch, rfl, h.idle (Bool.eq_false_iff.mpr hconnected)⟩
          shown := fun j c hc => by
            show c ∈ s.published.take s.published.length ++ s.listed
            rw [List.take_length]
            exact (h.shown j c hc).2
          fresh := fun u hu => by cases hu }
      handshook := fun hno => by cases hno
      live := fun hno => by cases hno }

/-- The stream has lost snapshots. -/
theorem InSync.degraded (h : s.InSync) {lost : List (JobView δ)}
    (hs : s.step (.degraded lost) = some s') : s'.InSync := by
  simp only [step] at hs
  split_ifs at hs with hconnected
  cases hs
  exact
    { epoch := h.epoch
      idle := fun hno => by rw [hconnected] at hno; cases hno
      opened := h.opened.trans (by simp)
      current := fun f hf => by
        rcases List.mem_append.mp hf with hf | hf
        · exact h.current f hf
        · cases List.mem_singleton.mp hf
          exact ⟨le_rfl, fun _ => ⟨h.opened.trans (by simp), fun hno => by cases hno⟩⟩
      sent := fun u hu => by
        show u ∈ (s.published ++ lost).drop s.opened
        rw [List.drop_append_of_le_length h.opened]
        exact List.mem_append_left _ (h.sent u hu)
      numbered := h.numbered
      shown := fun j c hc => by
        obtain ⟨hid, hmem⟩ := h.shown j c hc
        refine ⟨hid, ?_⟩
        show c ∈ (s.published ++ lost) ++ s.listed
        simp only [List.mem_append] at hmem ⊢
        tauto
      syncing := fun hno => by cases hno
      handshook := fun hshook => by
        obtain ⟨hconn, e, hepoch, htracks⟩ := h.handshook hshook
        exact ⟨hconn, e, hepoch, htracks.of_eq rfl rfl⟩
      live := fun hno => by cases hno }

/-- The stream breaks off. -/
theorem InSync.disconnect (h : s.InSync) (hs : s.step .disconnect = some s') : s'.InSync := by
  cases hs
  exact
    { epoch := h.epoch
      idle := fun _ => rfl
      opened := h.opened
      current := h.current
      sent := h.sent
      numbered := h.numbered
      shown := h.shown
      syncing := fun hno => by cases hno
      handshook := fun hno => by cases hno
      live := fun hno => by cases hno }

/-- A fetch fails; that of a hello makes the client stale. -/
theorem InSync.reject (h : s.InSync) {i : ℕ} (hs : s.step (.reject i) = some s') :
    s'.InSync ∧ s'.sync.cache = s.sync.cache := by
  obtain ⟨f, hf, rfl⟩ := Option.map_eq_some_iff.mp hs
  have hcurrent : ∀ g ∈ s.fetches.eraseIdx i, g ∈ s.fetches := fun g hg =>
    List.mem_of_mem_eraseIdx hg
  rcases f.kind with _ | _
  · exact ⟨
      { epoch := h.epoch
        idle := fun _ => rfl
        opened := h.opened
        current := fun g hg => h.current g (hcurrent g hg)
        sent := h.sent
        numbered := h.numbered
        shown := h.shown
        syncing := fun hno => by cases hno
        handshook := fun hshook => by
          obtain ⟨hconnected, e, hepoch, htracks⟩ := h.handshook hshook
          exact ⟨hconnected, e, hepoch, htracks.of_eq rfl rfl⟩
        live := fun hno => by cases hno }, rfl⟩
  · exact ⟨
      { h with
        current := fun g hg => h.current g (hcurrent g hg)
        syncing := fun hphase =>
          have hsyncing := h.syncing hphase
          ⟨hsyncing.sent, hsyncing.buffered, hsyncing.shown, hsyncing.fresh⟩
        live := h.live }, rfl⟩

omit [LinearOrder ε] in
/-- A snapshot changes the list and what was seen as `sync'` says. -/
theorem InSync.send (h : s.InSync) {sync' : LiveSync ε δ} (hconnected : s.connected = true)
    (hnum : ∀ u ∈ s.sent, u.id = v.id → JobView.numbered u v = true)
    (hfresh : v.coversAll (s.published.take s.opened ++ s.listed) = true)
    (hepoch : sync'.epoch = none) (hphase : sync'.phase = s.sync.phase)
    (hshown : ∀ j c, sync'.cache.get? j = some c →
      s.sync.cache.get? j = some c ∨ (c = v ∧ c.id = j))
    (hsyncing : s.sync.phase = .syncing → sync'.cache = s.sync.cache ∧
      ∀ e, s.epoch = some e → sync'.buffer = s.sync.buffer ++ [LiveSync.envelopeOf e v])
    (htracks : ∀ e, s.epoch = some e → s.sync.Tracks e s.sent s.listed →
      sync'.Tracks e (s.sent ++ [v]) s.listed)
    (hlive : s.sync.phase = .live → Advances s.sync.cache sync'.cache ∧ reflects sync'.cache v) :
    InSync { s with sync := sync', published := s.published ++ [v], sent := s.sent ++ [v] } where
  epoch := hepoch
  idle hno := by rw [hconnected] at hno; cases hno
  opened := h.opened.trans (by simp)
  current := h.current
  sent u hu := by
    show u ∈ (s.published ++ [v]).drop s.opened
    rw [List.drop_append_of_le_length h.opened]
    exact List.mem_append.mpr ((List.mem_append.mp hu).imp_left (h.sent u))
  numbered := by
    refine List.pairwise_append.mpr ⟨h.numbered, List.pairwise_singleton .., ?_⟩
    intro u hu w hw
    cases List.mem_singleton.mp hw
    exact hnum u hu
  shown j c hc := by
    show c.id = j ∧ c ∈ (s.published ++ [v]) ++ s.listed
    rcases hshown j c hc with hc | ⟨rfl, hid⟩
    · obtain ⟨hid, hmem⟩ := h.shown j c hc
      refine ⟨hid, ?_⟩
      simp only [List.mem_append] at hmem ⊢
      tauto
    · exact ⟨hid, by simp⟩
  syncing hphase' := by
    have hwait : s.sync.phase = .syncing := hphase.symm.trans hphase'
    obtain ⟨hsent, ⟨e, he, hbuffer⟩, hbefore, hcovers⟩ := h.syncing hwait
    obtain ⟨hcache, hpush⟩ := hsyncing hwait
    have htake : (s.published ++ [v]).take s.opened = s.published.take s.opened :=
      List.take_append_of_le_length h.opened
    refine ⟨?_, ⟨e, he, ?_⟩, fun j c hc => ?_, fun u hu => ?_⟩
    · show (s.published ++ [v]).drop s.opened = s.sent ++ [v]
      rw [List.drop_append_of_le_length h.opened, hsent]
    · show sync'.buffer = (s.sent ++ [v]).map _
      rw [hpush e he, hbuffer, List.map_append]
      rfl
    · show c ∈ (s.published ++ [v]).take s.opened ++ s.listed
      rw [htake]
      exact hbefore j c (hcache ▸ hc)
    · show u.coversAll ((s.published ++ [v]).take s.opened ++ s.listed) = true
      rw [htake]
      rcases List.mem_append.mp hu with hu | hu
      · exact hcovers u hu
      · cases List.mem_singleton.mp hu
        exact hfresh
  handshook hshook := by
    obtain ⟨hconn, e, he, htrack⟩ := h.handshook hshook
    exact ⟨hconn, e, he, htracks e he htrack⟩
  live hphase' := by
    obtain ⟨hshook, hdue⟩ := h.live (hphase.symm.trans hphase')
    obtain ⟨hadvances, hnew⟩ := hlive (hphase.symm.trans hphase')
    refine ⟨hshook, fun u hu => ?_⟩
    rw [due, List.drop_append] at hu
    rcases List.mem_append.mp hu with hu | hu
    · exact hadvances.reflects (hdue u hu)
    · cases List.mem_singleton.mp (List.mem_of_mem_drop hu)
      exact hnew

omit [LinearOrder ε] in
/-- A snapshot that is not looked at. -/
theorem InSync.unread (h : s.InSync) (hconnected : s.connected = true)
    (hnum : ∀ u ∈ s.sent, u.id = v.id → JobView.numbered u v = true)
    (hfresh : v.coversAll (s.published.take s.opened ++ s.listed) = true)
    (hsyncing : s.sync.phase ≠ .syncing) (hlive : s.sync.phase ≠ .live) :
    InSync { s with published := s.published ++ [v], sent := s.sent ++ [v] } :=
  h.send hconnected hnum hfresh h.epoch rfl (fun _ _ hc => .inl hc)
    (fun hphase => absurd hphase hsyncing) (fun _ _ htrack => htrack.ignore)
    fun hphase => absurd hphase hlive

/-- A snapshot in step. -/
theorem InSync.snapshot (h : s.InSync) {epoch : ε} (hok : s.snapshotInStep epoch v = true)
    (hs : s.step (.snapshot epoch v) = some s') :
    Synced s s' (s.shownBy (.snapshot epoch v)) := by
  simp only [step] at hs
  split_ifs at hs with hconnected
  cases hs
  simp only [snapshotInStep, Bool.and_eq_true, decide_eq_true_eq, List.all_eq_true,
    Bool.or_eq_true] at hok
  obtain ⟨⟨hepoch, hall⟩, hfresh⟩ := hok
  have hnum : ∀ u ∈ s.sent, u.id = v.id → JobView.numbered u v = true := fun u hu hid =>
    (hall u hu).resolve_left (not_not.mpr hid)
  have hlisted : v.coversAll s.listed = true := JobView.coversAll_iff.mpr fun u hu =>
    JobView.coversAll_iff.mp hfresh u (List.mem_append_right _ hu)
  have hadopt : s.sync.adoptEpoch (some epoch) = s.sync := by
    simp only [LiveSync.adoptEpoch, h.epoch]
  rcases hphase : s.sync.phase with _ | _ | _ | _
  · -- before the first hello nothing is shown
    have hevent : s.sync.onEvent (.jobSnapshot ⟨some epoch, some v⟩) = s.sync := by
      simp only [LiveSync.onEvent, hadopt, hphase]
    rw [shownBy, hevent]
    exact .of_once (h.unread hconnected hnum hfresh (by simp [hphase]) (by simp [hphase])) (.refl _)
  · -- waiting for the fetch: the snapshot is buffered
    have hevent : s.sync.onEvent (.jobSnapshot ⟨some epoch, some v⟩) =
        { s.sync with buffer := s.sync.buffer ++ [LiveSync.envelopeOf epoch v] } := by
      simp only [LiveSync.onEvent, hadopt, hphase]
      rfl
    rw [shownBy, hevent]
    refine .of_once (h.send hconnected hnum hfresh h.epoch rfl (fun j c hc => .inl hc)
      (fun _ => ⟨rfl, fun e he => ?_⟩) (fun _ _ htrack => htrack.ignore.of_eq rfl rfl)
      fun hno => ?_) (.refl _)
    · cases hepoch.symm.trans he
      rfl
    · rw [hphase] at hno; cases hno
  · -- live: what was seen decides
    have hevent : s.sync.onEvent (.jobSnapshot ⟨some epoch, some v⟩) =
        s.sync.applySnapshot (LiveSync.envelopeOf epoch v) := by
      simp only [LiveSync.onEvent, hadopt, hphase]
      rfl
    obtain ⟨-, e, he, htrack⟩ := h.handshook (h.live hphase).1
    cases hepoch.symm.trans he
    obtain ⟨htracks, hadvances, hshown⟩ := htrack.apply hnum hlisted
    rw [shownBy, hevent]
    refine .of_once (h.send hconnected hnum hfresh ?_ ?_ (fun j c hc => ?_) (fun hno => ?_)
      (fun e he' _ => ?_) fun _ => ⟨hadvances, hshown⟩) hadvances.neverOlder
    · rw [LiveSync.applySnapshot_epoch, h.epoch]
    · rw [LiveSync.applySnapshot_phase]
    · rcases LiveSync.applySnapshot_get? hc with hc | ⟨hjob, hid⟩
      · exact .inl hc
      · exact .inr ⟨(Option.some.inj hjob).symm, hid⟩
    · rw [hphase] at hno; cases hno
    · cases hepoch.symm.trans he'
      exact htracks
  · -- stale: the snapshot is ignored
    have hevent : s.sync.onEvent (.jobSnapshot ⟨some epoch, some v⟩) = s.sync := by
      simp only [LiveSync.onEvent, hadopt, hphase]
    rw [shownBy, hevent]
    exact .of_once (h.unread hconnected hnum hfresh (by simp [hphase]) (by simp [hphase])) (.refl _)

/-- A page that covers what is shown replaces nothing by an older view. -/
theorem neverOlder_page {cache : SortedMap ℕ (JobView δ)} {told : List (JobView δ)}
    (hids : ∀ j c, cache.get? j = some c → c.id = j ∧ c ∈ told)
    (hpage : ∀ w ∈ page, w.coversAll told = true) :
    NeverOlder cache (replaceCaches (fetchCollections page).views) := by
  intro j c w hc hw
  obtain ⟨hid, hmem⟩ := hids j c hc
  obtain ⟨hw, hwid⟩ := get?_replaceCaches hw
  exact JobView.not_older_of_covers (JobView.coversAll_iff.mp
    (hpage w (mem_fetchCollections.mp hw)) c hmem (hid.trans hwid.symm))

/-- After the fetch of a hello a row comes from the page or from the buffer. -/
theorem handshakeFetched_get? {sync : LiveSync ε δ} {sent : List (JobView δ)} {e : ε} {j : ℕ}
    {c : JobView δ} (hbuffer : sync.buffer = sent.map (LiveSync.envelopeOf e))
    (hc : (sync.handshakeFetched (fetchCollections page)).cache.get? j = some c) :
    (c ∈ page ∨ c ∈ sent) ∧ c.id = j := by
  rcases LiveSync.foldl_applySnapshot_get? hc with hc | ⟨envelope, hmem, hjob, hid⟩
  · obtain ⟨hmem, hid⟩ := get?_replaceCaches hc
    exact ⟨.inl (mem_fetchCollections.mp hmem), hid⟩
  · rw [hbuffer] at hmem
    obtain ⟨u, hu, rfl⟩ := List.mem_map.mp hmem
    cases hjob
    exact ⟨.inr hu, hid⟩

/-- The fetch of a hello, in step: the page goes on from what is shown, and the
buffered snapshots from the page. -/
theorem InSync.handshakeFetched (h : s.InSync) (hf : f ∈ s.fetches) (hkind : f.kind = .handshake)
    (hcurrent : s.isCurrent f = true) (hok : s.handshakeInStep f page = true) {i : ℕ}
    (hi : s.fetches[i]? = some f) :
    Synced s { s.fetched f page with fetches := s.fetches.eraseIdx i }
      (s.shownBy (.resolve i page)) := by
  obtain ⟨hconnected, hconn⟩ : s.connected = true ∧ f.connection = s.connection := by
    simpa [isCurrent] using hcurrent
  simp only [handshakeInStep, Bool.and_eq_true, decide_eq_true_eq, List.all_eq_true] at hok
  obtain ⟨⟨hphase, hpage⟩, hsince⟩ := hok
  have hstart : f.start = s.opened := ((h.current f hf).2 hconn).2 hkind
  rw [hstart] at hpage
  obtain ⟨hsent, ⟨e, he, hbuffer⟩, hshown, hfresh⟩ := h.syncing hphase
  have hlisted : ∀ u ∈ s.sent, u.coversAll (s.listed ++ page) = true := by
    intro u hu
    refine JobView.coversAll_iff.mpr fun w hw => ?_
    rcases List.mem_append.mp hw with hw | hw
    · exact JobView.coversAll_iff.mp (hfresh u hu) w (List.mem_append_right _ hw)
    · exact JobView.coversAll_iff.mp (hsince u hu) w hw
  have hinstall : (s.sync.install (fetchCollections page)).Tracks e [] (s.listed ++ page) :=
    .install h.epoch
  have hnum : ([] ++ s.sent).Pairwise fun (u v : JobView δ) =>
      u.id = v.id → JobView.numbered u v = true := h.numbered
  obtain ⟨htracks, hchain, hadvances, hreflects⟩ := hinstall.replay hnum hlisted
  rw [← hbuffer, List.nil_append] at htracks
  rw [← hbuffer] at hchain hadvances hreflects
  have hnever : NeverOlder s.sync.cache (s.sync.install (fetchCollections page)).cache :=
    neverOlder_page (fun j c hc => ⟨(h.shown j c hc).1, hshown j c hc⟩) hpage
  have hlists : s.shownBy (.resolve i page) =
      (s.sync.install (fetchCollections page)).cache ::
        (s.sync.install (fetchCollections page)).replayed s.sync.buffer := by
    simp only [shownBy, hi, Option.elim_some, hkind]
  have hsync : (s.fetched f page).sync = s.sync.handshakeFetched (fetchCollections page) := by
    simp only [fetched, hkind]
  have horigin : ∀ j c, (s.sync.handshakeFetched (fetchCollections page)).cache.get? j = some c →
      (c ∈ page ∨ c ∈ s.sent) ∧ c.id = j := fun j c => handshakeFetched_get? hbuffer
  rw [hlists]
  simp only [fetched, hkind]
  refine ⟨?_, ?_, ?_, ?_⟩
  · exact
      { epoch := (LiveSync.foldl_applySnapshot_epoch _).trans h.epoch
        idle := fun hno => by rw [hconnected] at hno; cases hno
        opened := h.opened
        current := fun g hg => h.current g (List.mem_of_mem_eraseIdx hg)
        sent := h.sent
        numbered := h.numbered
        shown := fun j c hc => by
          obtain ⟨hmem, hid⟩ := horigin j c hc
          refine ⟨hid, ?_⟩
          show c ∈ s.published ++ (s.listed ++ page)
          rcases hmem with hmem | hmem
          · simp [hmem]
          · simp [List.mem_of_mem_drop (h.sent c hmem)]
        syncing := fun hno => by cases hno
        handshook := fun _ => ⟨hconnected, e, he, htracks.of_eq rfl rfl⟩
        live := fun _ => by
          refine ⟨?_, fun u hu => ?_⟩
          · show (s.handshook || s.isCurrent f) = true
            rw [hcurrent, Bool.or_true]
          · change u ∈ s.published.drop f.start at hu
            rw [hstart, hsent] at hu
            exact hreflects u hu }
  · rw [List.getLast?_cons_cons]
    exact LiveSync.replayed_getLast? _
  · exact List.isChain_cons_cons.mpr ⟨hnever, hchain.imp fun _ _ hadv => hadv.neverOlder⟩
  · refine hnever.trans_advances hadvances fun j c w hc hgone hw => ?_
    -- a job that the page does not have comes from the buffer
    obtain ⟨hmem | hmem, hid⟩ := horigin j w hw
    · obtain ⟨x, hx⟩ := replaceCaches_isSome (mem_fetchCollections.mpr hmem)
      rw [hid] at hx
      cases hgone.symm.trans hx
    · exact JobView.not_older_of_covers (JobView.coversAll_iff.mp (hfresh w hmem) c (hshown j c hc)
        ((h.shown j c hc).1.trans hid.symm))

/-- The fetch of a degraded period, in step. -/
theorem InSync.degradedFetched (h : s.InSync) (hf : f ∈ s.fetches) (hkind : f.kind = .degraded)
    (hcurrent : s.isCurrent f = true) (hok : s.degradedInStep page = true) {i : ℕ}
    (hi : s.fetches[i]? = some f) :
    Synced s { s.fetched f page with fetches := s.fetches.eraseIdx i }
      (s.shownBy (.resolve i page)) := by
  obtain ⟨hconnected, hconn⟩ : s.connected = true ∧ f.connection = s.connection := by
    simpa [isCurrent] using hcurrent
  simp only [degradedInStep, Bool.and_eq_true, List.all_eq_true] at hok
  obtain ⟨⟨hshook, hpage⟩, hjobs⟩ := hok
  have hstart : s.opened ≤ f.start := ((h.current f hf).2 hconn).1
  have hcovers : ∀ {l : List (JobView δ)}, l ⊆ s.published → ∀ w ∈ page, w.coversAll l = true :=
    fun hsub w hw => JobView.coversAll_iff.mpr fun u hu =>
      JobView.coversAll_iff.mp (hpage w hw) u (List.mem_append_left _ (hsub hu))
  have hhas : ∀ u ∈ s.published.drop s.opened, ∃ w ∈ page, w.id = u.id := fun u hu => by
    simpa using hjobs u hu
  obtain ⟨-, e, he, htracks⟩ := h.handshook hshook
  have hnever : NeverOlder s.sync.cache (replaceCaches (fetchCollections page).views) :=
    neverOlder_page h.shown hpage
  have hlists : s.shownBy (.resolve i page) =
      [(s.sync.degradedFetched (fetchCollections page)).cache] := by
    simp only [shownBy, hi, Option.elim_some, hkind]
    rfl
  rw [hlists]
  simp only [fetched, hkind]
  refine .of_once ?_ hnever
  exact
    { epoch := h.epoch
      idle := fun hno => by rw [hconnected] at hno; cases hno
      opened := h.opened
      current := fun g hg => h.current g (List.mem_of_mem_eraseIdx hg)
      sent := h.sent
      numbered := h.numbered
      shown := fun j c hc => by
        obtain ⟨hmem, hid⟩ := get?_replaceCaches hc
        refine ⟨hid, ?_⟩
        show c ∈ s.published ++ (s.listed ++ page)
        simp [mem_fetchCollections.mp hmem]
      syncing := fun hno => by cases hno
      handshook := fun _ => ⟨hconnected, e, he, htracks.degraded
        (hcovers fun u hu => List.mem_of_mem_drop (h.sent u hu)) fun u hu => hhas u (h.sent u hu)⟩
      live := fun _ => by
        refine ⟨hshook, fun u hu => ?_⟩
        change u ∈ s.published.drop f.start at hu
        have hannounced : u ∈ s.published.drop s.opened :=
          (List.drop_sublist_drop_left s.published hstart).subset hu
        obtain ⟨c, -, hc, hcu⟩ := page_reflects
          (hcovers fun u hu => List.mem_of_mem_drop hu) hhas hannounced
        exact ⟨c, hc, hcu⟩ }

/-- One event. -/
theorem InSync.step (h : s.InSync) {e : ClientEvent ε δ} (hok : s.inStep e = true)
    (hs : s.step e = some s') : Synced s s' (s.shownBy e) := by
  cases e with
  | hello epoch =>
    refine .of_inSync (h.hello hs) ?_
    simp only [LiveClient.step] at hs
    split_ifs at hs
    cases hs
    rfl
  | snapshot epoch view => exact h.snapshot hok hs
  | degraded lost =>
    refine .of_inSync (h.degraded hs) ?_
    simp only [LiveClient.step] at hs
    split_ifs at hs
    cases hs
    rfl
  | disconnect =>
    refine .of_inSync (h.disconnect hs) ?_
    cases hs
    rfl
  | resolve i page =>
    obtain ⟨f, hf, rfl⟩ := Option.map_eq_some_iff.mp hs
    simp only [inStep, hf, Option.all_some] at hok
    obtain ⟨hcurrent, hkind⟩ := Bool.and_eq_true_iff.mp hok
    have hmem := List.mem_of_getElem? hf
    rcases hk : f.kind with _ | _ <;> rw [hk] at hkind
    · exact h.handshakeFetched hmem hk hcurrent hkind hf
    · exact h.degradedFetched hmem hk hcurrent hkind hf
  | reject i =>
    obtain ⟨hnext, hcache⟩ := h.reject hs
    exact .of_inSync hnext hcache

end LiveClient

/-- **The live view stays in sync.**  In every run whose steps all meet
`inStep`: mutations are enabled only on a connection whose handshake is
complete; while the client is live, it shows every snapshot that was published
after the fetch that completed last, or something newer; and of the next step,
none of the replacements it makes, nor all of them together, shows an older view
of a job, and a fetch that makes the client live resolves on an open connection,
the one it was started on. -/
theorem live_view_sync {ε δ : Type*} [LinearOrder ε] {s : LiveClient ε δ}
    (h : Reach LiveClient.step (fun s e => s.inStep e = true) LiveClient.Starts s) :
    (s.sync.canMutate = true → s.connected = true ∧ s.handshook = true) ∧
    (s.sync.phase = .live → ∀ v ∈ s.due,
      ∃ c, s.sync.cache.get? v.id = some c ∧ c.older v = false) ∧
    ∀ e s', s.inStep e = true → s.step e = some s' →
      (s.sync.cache :: s.shownBy e).getLast? = some s'.sync.cache ∧
      List.IsChain NeverOlder (s.sync.cache :: s.shownBy e) ∧
      NeverOlder s.sync.cache s'.sync.cache ∧
      ∀ i page, e = .resolve i page → s'.sync.phase = .live →
        s.connected = true ∧ ∃ f, s.fetches[i]? = some f ∧ f.connection = s.connection := by
  have hsync : s.InSync := by
    refine Reach.invariant (I := LiveClient.InSync) (fun q hq => .of_starts hq)
      (fun q e q' hq hok hs => (hq.step hok hs).inSync) h
  refine ⟨fun hlive => ?_, fun hlive v hv => ?_, fun e s' hok hs => ?_⟩
  · obtain ⟨hshook, -⟩ := hsync.live (decide_eq_true_eq.mp hlive)
    exact ⟨(hsync.handshook hshook).1, hshook⟩
  · obtain ⟨c, hc, hcovers⟩ := (hsync.live hlive).2 v hv
    exact ⟨c, hc, JobView.not_older_of_covers hcovers⟩
  · obtain ⟨-, hends, hchain, hnever⟩ := hsync.step hok hs
    refine ⟨hends, hchain, hnever, ?_⟩
    rintro i page rfl -
    obtain ⟨f, hf, -⟩ := Option.map_eq_some_iff.mp hs
    simp only [LiveClient.inStep, hf, Option.all_some] at hok
    obtain ⟨hcurrent, -⟩ := Bool.and_eq_true_iff.mp hok
    obtain ⟨hconnected, hconn⟩ := Bool.and_eq_true_iff.mp hcurrent
    exact ⟨hconnected, f, hf, decide_eq_true_eq.mp hconn⟩

/-- A page that has just been loaded. -/
def LiveClient.fresh : LiveClient ℕ Unit where
  sync := ⟨.connecting, none, [], .empty, .empty⟩
  fetches := []
  connected := false
  connection := 0
  handshook := false
  epoch := none
  published := []
  opened := 0
  sent := []
  listed := []
  since := 0

theorem LiveClient.starts_fresh : LiveClient.fresh.Starts :=
  ⟨rfl, rfl, rfl, rfl, rfl, rfl, rfl, rfl, rfl⟩

/-- A view of an active run of job 0. -/
def activeView (controlVersion sampleSeq : ℕ) : JobView Unit :=
  ⟨0, .active, .running, controlVersion, some 0, sampleSeq, none⟩

/-- A snapshot comes before the fetch resolves; after it a sample, and the first
one once more, which is dropped.  Then the client connects again, to a server
that was restarted meanwhile, loses a snapshot and fetches. -/
def reconnects : List (ClientEvent ℕ Unit) :=
  [.hello 0, .snapshot 0 (activeView 2 5), .resolve 0 [activeView 2 0],
    .snapshot 0 (activeView 2 6), .snapshot 0 (activeView 2 5), .disconnect,
    .hello 1, .resolve 0 [activeView 4 0], .snapshot 1 (activeView 4 1),
    .degraded [activeView 4 2], .resolve 0 [activeView 5 0], .snapshot 1 (activeView 5 3)]

/-- At the end the last snapshot is shown, on a connection whose handshake is
complete. -/
theorem live_view_sync_reconnects :
    ∃ s, runEvents LiveClient.step .fresh reconnects = some s ∧ s.sync.phase = .live ∧
      s.due = [activeView 5 3] ∧ s.sync.cache.get? 0 = some (activeView 5 3) ∧
      s.connected = true ∧ s.handshook = true := by
  have hend : ((runEvents LiveClient.step .fresh reconnects).map fun s =>
      (s.sync.phase, s.due, s.sync.cache.get? 0)) =
      some (.live, [activeView 5 3], some (activeView 5 3)) := by decide
  obtain ⟨s, hrun, hs⟩ := Option.map_eq_some_iff.mp hend
  obtain ⟨hphase, hs⟩ := Prod.mk.inj hs
  obtain ⟨hdue, hcache⟩ := Prod.mk.inj hs
  have hreach : Reach LiveClient.step (fun s e => s.inStep e = true) LiveClient.Starts s :=
    .of_run (.start LiveClient.starts_fresh) (by decide) hrun
  exact ⟨s, hrun, hphase, hdue, hcache, (live_view_sync hreach).1 (decide_eq_true_eq.mpr hphase)⟩

/-- A client that shows sample 37 connects again. -/
def reconnecting : List (ClientEvent ℕ Unit) :=
  [.hello 0, .resolve 0 [activeView 2 0], .snapshot 0 (activeView 2 37), .disconnect, .hello 0]

/-- A milestone carries the number of the sample before it. -/
def milestone : List (ClientEvent ℕ Unit) :=
  [.hello 0, .resolve 0 [activeView 2 0], .snapshot 0 (activeView 2 4),
    .snapshot 0 (activeView 4 4)]

/-- A fetch that resolves after the disconnect makes the client live; the page
of a fetch, which has the number 0, replaces sample 37; and a milestone with the
number of the last sample is never shown. -/
theorem live_view_out_of_sync :
    (∃ s : LiveClient ℕ Unit, Reach LiveClient.step (fun _ _ => True) LiveClient.Starts s ∧
      s.sync.canMutate = true ∧ s.connected = false ∧ s.handshook = false) ∧
    (∃ s s' : LiveClient ℕ Unit, Reach LiveClient.step (fun _ _ => True) LiveClient.Starts s ∧
      s.step (.resolve 0 [activeView 2 0]) = some s' ∧
      s.sync.cache.get? 0 = some (activeView 2 37) ∧
      s'.sync.cache.get? 0 = some (activeView 2 0) ∧
      (activeView 2 0).older (activeView 2 37) = true) ∧
    ∃ s : LiveClient ℕ Unit, Reach LiveClient.step (fun _ _ => True) LiveClient.Starts s ∧
      s.sync.phase = .live ∧ activeView 4 4 ∈ s.due ∧
      s.sync.cache.get? 0 = some (activeView 2 4) ∧
      (activeView 2 4).older (activeView 4 4) = true := by
  refine ⟨?_, ?_, ?_⟩
  · have hend : ((runEvents LiveClient.step .fresh [.hello 0, .disconnect, .resolve 0 []]).map
        fun s => (s.sync.canMutate, s.connected, s.handshook)) = some (true, false, false) := by
      decide
    obtain ⟨s, hrun, hs⟩ := Option.map_eq_some_iff.mp hend
    obtain ⟨hlive, hs⟩ := Prod.mk.inj hs
    obtain ⟨hconn, hshook⟩ := Prod.mk.inj hs
    exact ⟨s, .of_run (.start LiveClient.starts_fresh) runOk_true hrun, hlive, hconn, hshook⟩
  · have hend : ((runEvents LiveClient.step .fresh reconnecting).bind fun s =>
        (s.step (.resolve 0 [activeView 2 0])).map fun s' =>
          (s.sync.cache.get? 0, s'.sync.cache.get? 0)) =
        some (some (activeView 2 37), some (activeView 2 0)) := by decide
    obtain ⟨s, hrun, hs⟩ := Option.bind_eq_some_iff.mp hend
    obtain ⟨s', hs', hcaches⟩ := Option.map_eq_some_iff.mp hs
    obtain ⟨hcache, hcache'⟩ := Prod.mk.inj hcaches
    exact ⟨s, s', .of_run (.start LiveClient.starts_fresh) runOk_true hrun, hs', hcache, hcache',
      rfl⟩
  · have hend : ((runEvents LiveClient.step .fresh milestone).map fun s =>
        (s.sync.phase, s.due, s.sync.cache.get? 0)) =
        some (.live, [activeView 2 4, activeView 4 4], some (activeView 2 4)) := by decide
    obtain ⟨s, hrun, hs⟩ := Option.map_eq_some_iff.mp hend
    obtain ⟨hphase, hs⟩ := Prod.mk.inj hs
    obtain ⟨hdue, hcache⟩ := Prod.mk.inj hs
    refine ⟨s, .of_run (.start LiveClient.starts_fresh) runOk_true hrun, hphase, ?_, hcache, rfl⟩
    rw [hdue]
    decide

end KDown
