/-
KDown/JobPages.lean

The jobs collection, page by page (`list_jobs_page` in registry.rs, `list_jobs`
in api/jobs.rs).

A page holds the jobs behind the cursor in descending order of `updated_at` and
id, and the cursor of the next page is the last job's pair of these, sent to the
client as `updated_at:id` and parsed again with the next request.  Jobs are
inserted, updated and removed between the pages; whatever writes `updated_at`
writes the clock.

* `parseCursor_cursorText`: the text of a cursor is read back.
* `Evolves`: what a series of writes does to the stamps, on a clock that does
  not go back.
* `job_pages`: the pages end, and hold every job that is not updated once.
-/
import KDown.JsonText
import KDown.KeysetPages
import KDown.Registry
import KDown.Runs
import KDown.TextScan
import Mathlib.Data.Finite.Prod
import Mathlib.Data.Int.Interval
import Mathlib.Data.List.Lex
import Mathlib.Data.Prod.Lex

namespace KDown

/-! ### Texts of numbers and ids -/

/-- A 64-bit signed number. -/
structure I64 where
  val : ℤ
  inRange : -2 ^ 63 ≤ val ∧ val < 2 ^ 63
  deriving DecidableEq

namespace I64

theorem val_injective : Function.Injective val := by
  rintro ⟨x, hx⟩ ⟨y, hy⟩ (rfl : x = y)
  rfl

instance : LinearOrder I64 := @LinearOrder.lift' I64 ℤ Int.instLinearOrder val val_injective

instance : Finite I64 :=
  Finite.of_injective (fun x : I64 => (⟨x.val, x.inRange⟩ : Set.Ico (-2 ^ 63 : ℤ) (2 ^ 63)))
    fun _ _ h => val_injective (congrArg Subtype.val h)

/-- The decimal text of a signed number. -/
def text (x : I64) : List Char :=
  if x.val < 0 then '-' :: JsonText.number x.val.natAbs else JsonText.number x.val.natAbs

/-- The number, if it has 64 bits. -/
def ofInt (x : ℤ) : Option I64 :=
  if h : -2 ^ 63 ≤ x ∧ x < 2 ^ 63 then some ⟨x, h⟩ else none

/-- The digits of a number; there must be one. -/
def parseDigits (digits : List Char) : Option ℕ :=
  if digits.isEmpty || !digits.all Char.isDigit then none else some (digitsValue digits)

/-- A signed number, with or without its sign. -/
def parse : List Char → Option I64
  | '-' :: digits => (parseDigits digits).bind fun n => ofInt (-n)
  | '+' :: digits => (parseDigits digits).bind fun n => ofInt n
  | digits => (parseDigits digits).bind fun n => ofInt n

end I64

/-- A 128-bit identifier. -/
abbrev Uuid := Fin (2 ^ 128)

/-- The digits of an identifier, the highest first. -/
def uuidDigits (id : Uuid) : List Char :=
  (List.range 32).map fun i => JsonText.hexDigit (id.val / 16 ^ (31 - i) % 16)

/-- The hyphenated text of an identifier. -/
def uuidText (id : Uuid) : List Char :=
  (uuidDigits id).take 8 ++ '-' :: (((uuidDigits id).drop 8).take 4 ++ '-' ::
    (((uuidDigits id).drop 12).take 4 ++ '-' :: (((uuidDigits id).drop 16).take 4 ++ '-' ::
      (uuidDigits id).drop 20)))

/-- The cursor as it is sent to the client. -/
def cursorText (cursor : I64 × List Char) : List Char :=
  I64.text cursor.1 ++ ':' :: cursor.2

/-- The cursor read back; the id may be any text. -/
def parseCursor (raw : List Char) : Option (I64 × List Char) :=
  (splitOnce ':' raw).bind fun p => (I64.parse p.1).map fun updated => (updated, p.2)

theorem digitsValue_number (n : ℕ) : digitsValue (JsonText.number n) = n := digitsValue_toDigits n

theorem isDigit_of_mem_number {n : ℕ} {c : Char} (h : c ∈ JsonText.number n) :
    c.isDigit = true := Nat.isDigit_of_mem_toDigits (by decide) (by decide) h

theorem parseDigits_number (n : ℕ) : I64.parseDigits (JsonText.number n) = some n := by
  have hne : JsonText.number n ≠ [] := Nat.toDigits_ne_nil
  rw [I64.parseDigits, if_neg, digitsValue_number]
  rw [Bool.or_eq_true, not_or]
  refine ⟨fun h => hne (List.isEmpty_iff.mp h), fun h => ?_⟩
  rw [Bool.not_eq_true', List.all_eq_false] at h
  obtain ⟨c, hc, hno⟩ := h
  exact hno (isDigit_of_mem_number hc)

theorem I64.ofInt_val (x : I64) : I64.ofInt x.val = some x := by
  have hx : -2 ^ 63 ≤ x.val ∧ x.val < 2 ^ 63 := x.inRange
  rw [I64.ofInt, dif_pos hx]

/-- A number is read back from its text. -/
theorem I64.parse_text (x : I64) : I64.parse (I64.text x) = some x := by
  rw [I64.text]
  split_ifs with hneg
  · have hval : -(x.val.natAbs : ℤ) = x.val := by omega
    simp only [I64.parse, parseDigits_number, Option.bind_some, hval]
    exact I64.ofInt_val x
  · have hval : (x.val.natAbs : ℤ) = x.val := by omega
    rcases hd : JsonText.number x.val.natAbs with - | ⟨d, ds⟩
    · exact absurd hd Nat.toDigits_ne_nil
    · -- a digit is no sign
      have hdigit : d.isDigit = true := isDigit_of_mem_number (hd ▸ List.mem_cons_self)
      have hparse := parseDigits_number x.val.natAbs
      rw [hd] at hparse
      rw [I64.parse]
      · rw [hparse, Option.bind_some, hval]
        exact I64.ofInt_val x
      · rintro digits heq
        rw [(List.cons.inj heq).1] at hdigit
        cases hdigit
      · rintro digits heq
        rw [(List.cons.inj heq).1] at hdigit
        cases hdigit

theorem colon_not_mem_text (x : I64) : ':' ∉ I64.text x := by
  have hnumber : ':' ∉ JsonText.number x.val.natAbs := fun h =>
    absurd (isDigit_of_mem_number h) (by decide)
  rw [I64.text]
  split_ifs
  · rw [List.mem_cons, not_or]
    exact ⟨by decide, hnumber⟩
  · exact hnumber

/-- **A cursor is read back from its text.** -/
theorem parseCursor_cursorText (cursor : I64 × List Char) :
    parseCursor (cursorText cursor) = some cursor := by
  rw [parseCursor, cursorText, splitOnce_append (colon_not_mem_text cursor.1), Option.bind_some,
    I64.parse_text, Option.map_some]

theorem hexDigit_injOn : ∀ a < 16, ∀ b < 16, JsonText.hexDigit a = JsonText.hexDigit b → a = b := by
  decide

/-- Numbers whose lowest `n` hexadecimal digits agree. -/
theorem mod_eq_of_digits {a b : ℕ} (n : ℕ)
    (h : ∀ i < n, a / 16 ^ i % 16 = b / 16 ^ i % 16) : a % 16 ^ n = b % 16 ^ n := by
  induction n with
  | zero => rw [pow_zero, Nat.mod_one, Nat.mod_one]
  | succ n ih =>
    rw [Nat.mod_pow_succ, Nat.mod_pow_succ, ih fun i hi => h i (Nat.lt_succ_of_lt hi),
      h n (Nat.lt_succ_self n)]

theorem uuidDigits_injective : Function.Injective uuidDigits := by
  intro a b h
  have hdigit : ∀ i < 32, a.val / 16 ^ i % 16 = b.val / 16 ^ i % 16 := by
    intro i hi
    have hget := congrArg (fun l : List Char => l[31 - i]?) h
    have hrange : (List.range 32)[31 - i]? = some (31 - i) := List.getElem?_range (by omega)
    simp only [uuidDigits, List.getElem?_map, hrange, Option.map_some, Option.some.injEq] at hget
    rw [show 31 - (31 - i) = i by omega] at hget
    exact hexDigit_injOn _ (Nat.mod_lt _ (by decide)) _ (Nat.mod_lt _ (by decide)) hget
  have hmod := mod_eq_of_digits 32 hdigit
  have hbound : (2 : ℕ) ^ 128 = 16 ^ 32 := by decide
  rw [Nat.mod_eq_of_lt (a.isLt.trans_eq hbound), Nat.mod_eq_of_lt (b.isLt.trans_eq hbound)] at hmod
  exact Fin.ext hmod

theorem length_uuidDigits (id : Uuid) : (uuidDigits id).length = 32 := by
  rw [uuidDigits, List.length_map, List.length_range]

/-- The hyphens stand at fixed places. -/
theorem uuidText_injective : Function.Injective uuidText := by
  intro a b h
  apply uuidDigits_injective
  have hlen : (uuidDigits a).length = (uuidDigits b).length := by
    rw [length_uuidDigits, length_uuidDigits]
  rw [uuidText, uuidText] at h
  obtain ⟨h₁, h⟩ := List.append_inj h (by rw [List.length_take, List.length_take, hlen])
  obtain ⟨h₂, h⟩ := List.append_inj (List.cons.inj h).2
    (by rw [List.length_take, List.length_take, List.length_drop, List.length_drop, hlen])
  obtain ⟨h₃, h⟩ := List.append_inj (List.cons.inj h).2
    (by rw [List.length_take, List.length_take, List.length_drop, List.length_drop, hlen])
  obtain ⟨h₄, h⟩ := List.append_inj (List.cons.inj h).2
    (by rw [List.length_take, List.length_take, List.length_drop, List.length_drop, hlen])
  have h₅ := (List.cons.inj h).2
  have hsplit : ∀ l : List Char, l.take 8 ++ ((l.drop 8).take 4 ++ ((l.drop 12).take 4 ++
      ((l.drop 16).take 4 ++ l.drop 20))) = l := by
    intro l
    have h16 : (l.drop 16).take 4 ++ l.drop 20 = l.drop 16 := by
      rw [show l.drop 20 = (l.drop 16).drop 4 by rw [List.drop_drop], List.take_append_drop]
    have h12 : (l.drop 12).take 4 ++ l.drop 16 = l.drop 12 := by
      rw [show l.drop 16 = (l.drop 12).drop 4 by rw [List.drop_drop], List.take_append_drop]
    have h8 : (l.drop 8).take 4 ++ l.drop 12 = l.drop 8 := by
      rw [show l.drop 12 = (l.drop 8).drop 4 by rw [List.drop_drop], List.take_append_drop]
    rw [h16, h12, h8, List.take_append_drop]
  rw [← hsplit (uuidDigits a), ← hsplit (uuidDigits b), h₁, h₂, h₃, h₄, h₅]

/-! ### Pages -/

/-- A row of the table of jobs: the columns that a page is selected and ordered
by, and the record of the job. -/
structure JobRow where
  id : Uuid
  sourceUrl : String
  createdAt : I64
  updatedAt : I64
  record : JobRecord

/-- What the order compares. -/
def JobRow.key (r : JobRow) : I64 ×ₗ List Char := toLex (r.updatedAt, uuidText r.id)

/-- What a page is asked for. -/
structure JobPageQuery where
  status : Option DurableJobStatus
  sourceContains : Option String
  createdAfter : Option I64
  createdBefore : Option I64
  cursor : Option (I64 × List Char)
  limit : ℕ

namespace JobPageQuery

/-- The filters of the `WHERE` clause; `NULL` selects everything. -/
def Selects (q : JobPageQuery) (r : JobRow) : Prop :=
  (∀ status ∈ q.status, r.record.status = status) ∧
    (∀ part ∈ q.sourceContains, part.toList <:+: r.sourceUrl.toList) ∧
    (∀ after ∈ q.createdAfter, after ≤ r.createdAt) ∧
    (∀ before ∈ q.createdBefore, r.createdAt ≤ before)

instance (q : JobPageQuery) (r : JobRow) : Decidable (q.Selects r) :=
  inferInstanceAs (Decidable (_ ∧ _ ∧ _ ∧ _))

/-- The last condition of the `WHERE` clause. -/
def AfterCursor (q : JobPageQuery) (r : JobRow) : Prop :=
  ∀ cursor ∈ q.cursor,
    r.updatedAt < cursor.1 ∨ r.updatedAt = cursor.1 ∧ uuidText r.id < cursor.2

instance (q : JobPageQuery) (r : JobRow) : Decidable (q.AfterCursor r) :=
  inferInstanceAs (Decidable (∀ cursor ∈ q.cursor, _))

/-- The size of a page, within its bounds. -/
def pageLimit (q : JobPageQuery) : ℕ := max 1 (min q.limit 200)

end JobPageQuery

/-- One page, plus the cursor of the following one. -/
def listJobsPage (rows : List JobRow) (q : JobPageQuery) :
    List JobRow × Option (I64 × List Char) :=
  -- `ORDER BY updated_at DESC, id DESC`, and one row more than the page holds
  let records := (Keyset.sortDesc JobRow.key
    (rows.filter fun r => q.Selects r ∧ q.AfterCursor r)).take (q.pageLimit + 1)
  if q.pageLimit < records.length then
    (records.dropLast,
      records.dropLast.getLast?.map fun last => (last.updatedAt, uuidText last.id))
  else (records, none)

/-- The parameters of a request. -/
structure JobListParams where
  cursor : Option (List Char)
  limit : Option ℕ
  status : Option String
  source : Option String
  createdFrom : Option I64
  createdTo : Option I64

/-- A page, with the text of the next cursor. -/
structure JobPage where
  jobs : List JobRow
  nextCursor : Option (List Char)

/-- An unknown name is no filter. -/
def parseStatus : String → Option DurableJobStatus
  | "queued" => some .queued
  | "recovering" => some .recovering
  | "active" => some .active
  | "paused" => some .paused
  | "completed" => some .completed
  | "failed" => some .failed
  | "cancelled" => some .cancelled
  | _ => none

namespace JobListParams

/-- The query of a request, with its defaults. -/
def query (p : JobListParams) (cursor : Option (I64 × List Char)) : JobPageQuery where
  status := p.status.bind parseStatus
  sourceContains := p.source
  createdAfter := p.createdFrom
  createdBefore := p.createdTo
  cursor := cursor
  limit := p.limit.getD 50

/-- The page of a request. -/
def respond (p : JobListParams) (rows : List JobRow) (cursor : Option (I64 × List Char)) :
    JobPage where
  jobs := (listJobsPage rows (p.query cursor)).1
  nextCursor := (listJobsPage rows (p.query cursor)).2.map cursorText

/-- The filters of the request, whatever its cursor. -/
def Selects (p : JobListParams) (r : JobRow) : Prop := (p.query none).Selects r

instance (p : JobListParams) (r : JobRow) : Decidable (p.Selects r) :=
  inferInstanceAs (Decidable ((p.query none).Selects r))

end JobListParams

/-- The handler: a cursor that cannot be parsed is refused. -/
def listJobs (rows : List JobRow) (p : JobListParams) : Except AppError JobPage :=
  match p.cursor with
  | none => .ok (p.respond rows none)
  | some raw =>
      match parseCursor raw with
      | none => .error (.other "invalid_settings")
      | some cursor => .ok (p.respond rows (some cursor))

/-- The jobs a client sees that follows the cursors, reading one page of each
table, and finds no cursor with the last one. -/
def followPages (p : JobListParams) : List (List JobRow) → Option (List Char) →
    Option (List JobRow)
  | [], _ => none
  | rows :: tables, cursor =>
      match listJobs rows { p with cursor := cursor } with
      | .error _ => none
      | .ok page =>
          match page.nextCursor with
          | none => if tables.isEmpty then some page.jobs else none
          | some next => (followPages p tables (some next)).map (page.jobs ++ ·)

/-! ### Pages of the order -/

/-- The condition of the `WHERE` clause compares the keys with the cursor. -/
theorem afterCursor_iff {p : JobListParams} {cursor : Option (I64 × List Char)} {r : JobRow} :
    (p.query cursor).AfterCursor r ↔ Keyset.Below JobRow.key (cursor.map toLex) r := by
  rcases cursor with - | c
  · exact iff_of_true (fun _ h => by cases h) (fun _ h => by cases h)
  · have hlt : r.key < toLex c ↔ r.updatedAt < c.1 ∨ r.updatedAt = c.1 ∧ uuidText r.id < c.2 :=
      Prod.Lex.toLex_lt_toLex
    constructor
    · intro h k hk
      rw [← Option.some.inj hk]
      exact hlt.mpr (h c rfl)
    · intro h k hk
      rw [← Option.some.inj hk]
      exact hlt.mp (h _ rfl)

/-- A page of the collection is a page of its selected rows. -/
theorem listJobsPage_eq (p : JobListParams) (rows : List JobRow)
    (cursor : Option (I64 × List Char)) :
    listJobsPage rows (p.query cursor) =
      ((Keyset.page JobRow.key (p.query none).pageLimit
          ((rows.filter fun r => p.Selects r).filter fun r =>
            Keyset.Below JobRow.key (cursor.map toLex) r)).1,
        (Keyset.page JobRow.key (p.query none).pageLimit
          ((rows.filter fun r => p.Selects r).filter fun r =>
            Keyset.Below JobRow.key (cursor.map toLex) r)).2.map
              fun last => (last.updatedAt, uuidText last.id)) := by
  have hrows : (rows.filter fun r => (p.query cursor).Selects r ∧ (p.query cursor).AfterCursor r) =
      (rows.filter fun r => p.Selects r).filter fun r =>
        Keyset.Below JobRow.key (cursor.map toLex) r := by
    rw [List.filter_filter]
    refine List.filter_congr fun r _ => ?_
    rw [← Bool.decide_and]
    refine decide_eq_decide.mpr ?_
    rw [afterCursor_iff]
    exact and_comm
  have hlimit : (p.query cursor).pageLimit = (p.query none).pageLimit := rfl
  simp only [listJobsPage, hrows, hlimit, Keyset.page, Keyset.cut]
  split_ifs
  · rfl
  · rfl

theorem listJobs_start (p : JobListParams) (rows : List JobRow) :
    listJobs rows { p with cursor := none } = .ok (p.respond rows none) := rfl

theorem listJobs_cursorText (p : JobListParams) (rows : List JobRow) (c : I64 × List Char) :
    listJobs rows { p with cursor := some (cursorText c) } = .ok (p.respond rows (some c)) := by
  simp only [listJobs, parseCursor_cursorText]
  rfl

/-- Following the cursors through their texts is following the keys. -/
theorem followPages_eq (p : JobListParams) (tables : List (List JobRow))
    (cursor : Option (I64 × List Char)) :
    followPages p tables (cursor.map cursorText) =
      Keyset.follow JobRow.key (p.query none).pageLimit
        (tables.map fun rows => rows.filter fun r => p.Selects r) (cursor.map toLex) := by
  induction tables generalizing cursor with
  | nil => rfl
  | cons rows tables ih =>
    have hpage : listJobs rows { p with cursor := cursor.map cursorText } =
        .ok (p.respond rows cursor) := by
      rcases cursor with - | c
      · exact listJobs_start p rows
      · exact listJobs_cursorText p rows c
    rw [followPages, hpage, List.map_cons, Keyset.follow]
    simp only [JobListParams.respond, listJobsPage_eq]
    rcases Keyset.page JobRow.key (p.query none).pageLimit
      ((rows.filter fun r => p.Selects r).filter fun r =>
        Keyset.Below JobRow.key (cursor.map toLex) r) with ⟨records, - | last⟩
    · simp only [Option.map_none, List.isEmpty_map]
    · have hnext := ih (some (last.updatedAt, uuidText last.id))
      simp only [Option.map_some] at hnext ⊢
      rw [hnext]
      rfl

/-! ### Writes between the pages -/

/-- The statements that write the table of jobs. -/
inductive JobWrite
  /-- `insert_job`, which picks the id. -/
  | insertJob (id : Uuid) (sourceUrl : String)
  | compareAndSetDesired (id : Uuid) (expected : ℕ) (desired : DesiredState)
  /-- `mark_status`, and the milestone of a finished attempt. -/
  | markStatus (id : Uuid) (status : DurableJobStatus)
  /-- A new attempt becomes the current one; `updated_at` stays. -/
  | setCurrentAttempt (id : Uuid) (attempt : ℕ)
  | removeJobHistory (id : Uuid)

namespace JobWrite

/-- The statement updates or deletes the row. -/
def Updates : JobWrite → JobRow → Prop
  | .insertJob _ _, _ => False
  | .compareAndSetDesired id expected _, r =>
      r.id = id ∧ expected < maxControlVersion ∧ r.record.controlVersion = expected
  | .markStatus id _, r => r.id = id ∧ r.record.controlVersion < maxControlVersion
  | .setCurrentAttempt _ _, _ => False
  | .removeJobHistory id, r => r.id = id

instance (w : JobWrite) (r : JobRow) : Decidable (w.Updates r) :=
  match w with
  | .insertJob _ _ => inferInstanceAs (Decidable False)
  | .compareAndSetDesired _ _ _ => inferInstanceAs (Decidable (_ ∧ _ ∧ _))
  | .markStatus _ _ => inferInstanceAs (Decidable (_ ∧ _))
  | .setCurrentAttempt _ _ => inferInstanceAs (Decidable False)
  | .removeJobHistory _ => inferInstanceAs (Decidable (_ = _))

/-- What an updated row becomes. -/
def update (now : I64) : JobWrite → JobRow → JobRow
  | .compareAndSetDesired _ expected desired, r =>
      { r with
        updatedAt := now
        record := { r.record with desiredState := desired, controlVersion := expected + 1 } }
  | .markStatus _ status, r =>
      { r with updatedAt := now, record := Registry.withStatus r.record status }
  | .setCurrentAttempt id attempt, r =>
      if r.id = id then { r with record := { r.record with currentAttemptId := some attempt } }
      else r
  | _, r => r

/-- The table after the statement, at the instant `now`. -/
def perform (now : I64) (w : JobWrite) (rows : List JobRow) : List JobRow :=
  match w with
  | .insertJob id sourceUrl =>
      -- the id is the primary key
      if rows.any fun r => r.id = id then rows
      else rows ++ [⟨id, sourceUrl, now, now, ⟨.running, .queued, 1, none⟩⟩]
  | .removeJobHistory id => rows.filter fun r => r.id ≠ id
  | .setCurrentAttempt _ _ => rows.map (w.update now)
  | _ => rows.map fun r => if w.Updates r then w.update now r else r

end JobWrite

/-- Two states of a row that a page does not tell apart, but for the job's
attempt. -/
structure JobRow.Agrees (r r' : JobRow) : Prop where
  id : r'.id = r.id
  sourceUrl : r'.sourceUrl = r.sourceUrl
  createdAt : r'.createdAt = r.createdAt
  updatedAt : r'.updatedAt = r.updatedAt
  status : r'.record.status = r.record.status

namespace JobRow

theorem Agrees.refl (r : JobRow) : r.Agrees r := ⟨rfl, rfl, rfl, rfl, rfl⟩

theorem Agrees.trans {r r' r'' : JobRow} (h : r.Agrees r') (h' : r'.Agrees r'') :
    r.Agrees r'' where
  id := h'.id.trans h.id
  sourceUrl := h'.sourceUrl.trans h.sourceUrl
  createdAt := h'.createdAt.trans h.createdAt
  updatedAt := h'.updatedAt.trans h.updatedAt
  status := h'.status.trans h.status

theorem Agrees.key {r r' : JobRow} (h : r.Agrees r') : r'.key = r.key := by
  rw [JobRow.key, JobRow.key, h.updatedAt, h.id]

theorem Agrees.selects {r r' : JobRow} (h : r.Agrees r') {p : JobListParams} :
    p.Selects r' ↔ p.Selects r := by
  rw [JobListParams.Selects, JobListParams.Selects, JobPageQuery.Selects, JobPageQuery.Selects,
    h.status, h.sourceUrl, h.createdAt]

end JobRow

namespace JobWrite

variable {w : JobWrite} {now : I64} {rows : List JobRow} {r : JobRow}

/-- An update keeps the id, and without one the row agrees. -/
theorem id_update (w : JobWrite) (now : I64) (r : JobRow) : (w.update now r).id = r.id := by
  cases w with
  | setCurrentAttempt id attempt =>
    rw [update]
    split_ifs
    · rfl
    · rfl
  | _ => rfl

theorem agrees_setCurrentAttempt (id : Uuid) (attempt : ℕ) (now : I64) (r : JobRow) :
    r.Agrees ((setCurrentAttempt id attempt).update now r) := by
  rw [update]
  split_ifs
  · exact ⟨rfl, rfl, rfl, rfl, rfl⟩
  · exact .refl r

/-- A statement leaves the identities distinct. -/
theorem ids_perform (h : (rows.map JobRow.id).Nodup) :
    ((w.perform now rows).map JobRow.id).Nodup := by
  have hmap : ∀ f : JobRow → JobRow, (∀ r, (f r).id = r.id) →
      ((rows.map f).map JobRow.id).Nodup := by
    intro f hf
    rw [List.map_map, show JobRow.id ∘ f = JobRow.id from funext hf]
    exact h
  have hcond : ∀ w : JobWrite, ((rows.map fun r => if w.Updates r then w.update now r else r).map
      JobRow.id).Nodup := by
    refine fun w => hmap _ fun r => ?_
    split_ifs
    · exact id_update w now r
    · rfl
  cases w with
  | insertJob id sourceUrl =>
    rw [perform]
    split_ifs with hany
    · exact h
    · rw [List.map_append]
      refine List.nodup_append.mpr ⟨h, List.nodup_singleton _, fun a ha b hb => ?_⟩
      rintro rfl
      obtain ⟨r, hr, hid⟩ := List.mem_map.mp ha
      rw [List.mem_singleton.mp hb] at hid
      exact hany (List.any_eq_true.mpr ⟨r, hr, decide_eq_true hid⟩)
  | compareAndSetDesired id expected desired => exact hcond _
  | markStatus id status => exact hcond _
  | setCurrentAttempt id attempt => exact hmap _ (id_update _ now)
  | removeJobHistory id => exact h.sublist (List.filter_sublist.map _)

/-- A row has the stamp of the statement or agrees with one from before. -/
theorem mem_perform (h : r ∈ w.perform now rows) :
    r.updatedAt = now ∨ ∃ r₀ ∈ rows, r₀.Agrees r := by
  have hcond : ∀ w : JobWrite, (∀ r₀, w.Updates r₀ → (w.update now r₀).updatedAt = now) →
      r ∈ (rows.map fun r => if w.Updates r then w.update now r else r) →
        r.updatedAt = now ∨ ∃ r₀ ∈ rows, r₀.Agrees r := by
    intro w hstamp hr
    obtain ⟨r₀, hr₀, rfl⟩ := List.mem_map.mp hr
    split_ifs with hup
    · exact .inl (hstamp r₀ hup)
    · exact .inr ⟨r₀, hr₀, .refl r₀⟩
  cases w with
  | insertJob id sourceUrl =>
    rw [perform] at h
    split_ifs at h
    · exact .inr ⟨r, h, .refl r⟩
    · rcases List.mem_append.mp h with h | h
      · exact .inr ⟨r, h, .refl r⟩
      · rw [List.mem_singleton.mp h]
        exact .inl rfl
  | compareAndSetDesired id expected desired => exact hcond _ (fun _ _ => rfl) h
  | markStatus id status => exact hcond _ (fun _ _ => rfl) h
  | setCurrentAttempt id attempt =>
    obtain ⟨r₀, hr₀, rfl⟩ := List.mem_map.mp h
    exact .inr ⟨r₀, hr₀, agrees_setCurrentAttempt id attempt now r₀⟩
  | removeJobHistory id => exact .inr ⟨r, List.mem_of_mem_filter h, .refl r⟩

/-- What is not updated is still there. -/
theorem perform_keeps (hr : r ∈ rows) (hno : ¬ w.Updates r) :
    ∃ r' ∈ w.perform now rows, r.Agrees r' := by
  have hcond : ∀ w : JobWrite, ¬ w.Updates r →
      ∃ r' ∈ rows.map (fun r => if w.Updates r then w.update now r else r), r.Agrees r' :=
    fun w hno => ⟨r, List.mem_map.mpr ⟨r, hr, if_neg hno⟩, .refl r⟩
  cases w with
  | insertJob id sourceUrl =>
    rw [perform]
    split_ifs
    · exact ⟨r, hr, .refl r⟩
    · exact ⟨r, List.mem_append_left _ hr, .refl r⟩
  | compareAndSetDesired id expected desired => exact hcond _ hno
  | markStatus id status => exact hcond _ hno
  | setCurrentAttempt id attempt =>
    exact ⟨_, List.mem_map_of_mem hr, agrees_setCurrentAttempt id attempt now r⟩
  | removeJobHistory id =>
    exact ⟨r, List.mem_filter.mpr ⟨hr, decide_eq_true hno⟩, .refl r⟩

end JobWrite

/-! ### Runs of writes -/

/-- The table of jobs and the last reading of the clock.  No stamp is ahead of
the clock. -/
structure JobTable where
  rows : List JobRow
  clock : I64
  distinct : (rows.map JobRow.id).Nodup
  stamped : ∀ r ∈ rows, r.updatedAt ≤ clock

namespace JobTable

/-- A statement at an instant; the clock does not go back. -/
def step (t : JobTable) (e : I64 × JobWrite) : Option JobTable :=
  if h : t.clock ≤ e.1 then
    some
      { rows := e.2.perform e.1 t.rows
        clock := e.1
        distinct := JobWrite.ids_perform t.distinct
        stamped := fun r hr => by
          rcases JobWrite.mem_perform hr with hnow | ⟨r₀, hr₀, hag⟩
          · exact hnow.le
          · exact hag.updatedAt.le.trans ((t.stamped r₀ hr₀).trans h) }
  else none

/-- What happens to the stamps: a row of the later table was stamped since, or
has the stamp it had. -/
structure Evolves (t t' : JobTable) : Prop where
  clock : t.clock ≤ t'.clock
  rows : ∀ r' ∈ t'.rows, t.clock ≤ r'.updatedAt ∨
    ∃ r ∈ t.rows, r'.id = r.id ∧ r'.updatedAt = r.updatedAt

variable {t t' t'' : JobTable}

theorem Evolves.refl (t : JobTable) : t.Evolves t where
  clock := le_rfl
  rows := fun r' hr' => .inr ⟨r', hr', rfl, rfl⟩

theorem Evolves.trans (h : t.Evolves t') (h' : t'.Evolves t'') : t.Evolves t'' where
  clock := h.clock.trans h'.clock
  rows := fun r'' hr'' => by
    rcases h'.rows r'' hr'' with hnew | ⟨r', hr', hid', hat'⟩
    · exact .inl (h.clock.trans hnew)
    · rw [hid', hat']
      exact h.rows r' hr'

/-- Every write moves the stamps as a table may evolve. -/
theorem Evolves.step {e : I64 × JobWrite} (hs : t.step e = some t') : t.Evolves t' := by
  rw [JobTable.step] at hs
  split_ifs at hs with hclock
  rw [← Option.some.inj hs]
  refine ⟨hclock, fun r' hr' => ?_⟩
  rcases JobWrite.mem_perform hr' with hnow | ⟨r, hr, hag⟩
  · exact .inl (hnow ▸ hclock)
  · exact .inr ⟨r, hr, hag.id, hag.updatedAt⟩

theorem Evolves.run {es : List (I64 × JobWrite)} (hs : runEvents JobTable.step t es = some t') :
    t.Evolves t' := by
  induction es generalizing t with
  | nil =>
    rw [← Option.some.inj hs]
    exact .refl t
  | cons e es ih =>
    obtain ⟨u, hu, hrest⟩ := Option.bind_eq_some_iff.mp hs
    exact (Evolves.step hu).trans (ih hrest)

/-- A row never moves down. -/
theorem Evolves.key_le (h : t.Evolves t') {r r' : JobRow} (hr : r ∈ t.rows) (hr' : r' ∈ t'.rows)
    (hid : r.id = r'.id) : r.key ≤ r'.key := by
  have hle : r.updatedAt ≤ r'.updatedAt := by
    rcases h.rows r' hr' with hnew | ⟨r₀, hr₀, hid₀, hat⟩
    · exact (t.stamped r hr).trans hnew
    · have hsame : r = r₀ := List.inj_on_of_nodup_map t.distinct hr hr₀ (hid.trans hid₀)
      rw [hat, hsame]
  rw [JobRow.key, JobRow.key, hid]
  exact Prod.Lex.toLex_mono ⟨hle, le_rfl⟩

/-- No statement updates the job. -/
def Quiet (id : Uuid) (t : JobTable) (es : List (I64 × JobWrite)) : Prop :=
  runOk step (fun t e => ∀ r ∈ t.rows, r.id = id → ¬ e.2.Updates r) t es

/-- A job that is not updated keeps its row. -/
theorem Quiet.keeps {es : List (I64 × JobWrite)} {r : JobRow} (hr : r ∈ t.rows)
    (hquiet : Quiet r.id t es) (hs : runEvents JobTable.step t es = some t') :
    ∃ r' ∈ t'.rows, r.Agrees r' := by
  induction es generalizing t r with
  | nil =>
    rw [← Option.some.inj hs]
    exact ⟨r, hr, .refl r⟩
  | cons e es ih =>
    obtain ⟨u, hu, hrest⟩ := Option.bind_eq_some_iff.mp hs
    obtain ⟨hno, hlater⟩ := hquiet
    obtain ⟨r₁, hr₁, hag₁⟩ : ∃ r' ∈ u.rows, r.Agrees r' := by
      have hstep := hu
      rw [JobTable.step] at hstep
      split_ifs at hstep
      rw [← Option.some.inj hstep]
      exact JobWrite.perform_keeps hr (hno r hr rfl)
    have hquiet₁ : Quiet r₁.id u es := by
      rw [hag₁.id]
      exact hlater u hu
    obtain ⟨r₂, hr₂, hag₂⟩ := ih hr₁ hquiet₁ hrest
    exact ⟨r₂, hr₂, hag₁.trans hag₂⟩

end JobTable

/-! ### The whole collection -/

/-- There are finitely many keys. -/
theorem wellFounded_key : WellFounded fun a b : JobRow => a.key < b.key := by
  let keyOf : I64 × Uuid → I64 ×ₗ List Char := fun x => toLex (x.1, uuidText x.2)
  have htrans : IsTrans (I64 × Uuid) fun x y => keyOf x < keyOf y := ⟨fun _ _ _ => lt_trans⟩
  have hirrefl : Std.Irrefl fun x y : I64 × Uuid => keyOf x < keyOf y := ⟨fun _ => lt_irrefl _⟩
  have hwf : WellFounded fun x y : I64 × Uuid => keyOf x < keyOf y :=
    Finite.wellFounded_of_trans_of_irrefl _
  exact InvImage.wf (fun r : JobRow => (r.updatedAt, r.id)) hwf

theorem id_eq_of_key_eq {a b : JobRow} (h : a.key = b.key) : a.id = b.id :=
  uuidText_injective (congrArg (fun k => (ofLex k).2) h)

section Pages

variable {T : ℕ → JobTable} {σ : ℕ → List (I64 × JobWrite)}
  (hrun : ∀ n, runEvents JobTable.step (T n) (σ n) = some (T (n + 1)))

include hrun

theorem evolves_of_le {n m : ℕ} (h : n ≤ m) : (T n).Evolves (T m) := by
  induction m, h using Nat.le_induction with
  | base => exact .refl _
  | succ m _ ih => exact ih.trans (.run (hrun m))

/-- The selected rows only move up. -/
theorem rising_selected (p : JobListParams) :
    Keyset.Rising JobRow.key JobRow.id fun n => (T n).rows.filter fun r => p.Selects r where
  distinct := fun n => (T n).distinct.sublist (List.filter_sublist.map _)
  keys := fun n => by
    have hids := (T n).distinct.sublist
      ((List.filter_sublist (p := fun r => decide (p.Selects r))).map JobRow.id)
    rw [List.Nodup, List.pairwise_map] at hids ⊢
    exact hids.imp fun hne heq => hne (id_eq_of_key_eq heq)
  up := fun n m hnm a ha b hb hid =>
    (evolves_of_le hrun hnm.le).key_le (List.mem_of_mem_filter ha) (List.mem_of_mem_filter hb) hid

theorem agrees_of_quiet {n : ℕ} {r : JobRow} (hr : r ∈ (T 0).rows)
    (hquiet : ∀ m < n, JobTable.Quiet r.id (T m) (σ m)) :
    ∃ r' ∈ (T n).rows, r.Agrees r' := by
  induction n with
  | zero => exact ⟨r, hr, .refl r⟩
  | succ n ih =>
    obtain ⟨r₁, hr₁, hag⟩ := ih fun m hm => hquiet m (Nat.lt_succ_of_lt hm)
    have hquiet₁ : JobTable.Quiet r₁.id (T n) (σ n) := by
      rw [hag.id]
      exact hquiet n (Nat.lt_succ_self n)
    obtain ⟨r₂, hr₂, hag₂⟩ := hquiet₁.keeps hr₁ (hrun n)
    exact ⟨r₂, hr₂, hag.trans hag₂⟩

/-- **The pages of the collection.**  For every table, every request and every
writes between the pages, on a clock that does not go back: following the
cursors ends after some `n + 1` pages.  The jobs listed are in descending order
of `updated_at` and id, no job is listed twice, each was selected in the table
its page was read from, and every selected job of the first table that is not
updated before the last page is listed once. -/
theorem job_pages (p : JobListParams) :
    ∃ n rows, followPages p ((List.range (n + 1)).map fun m => (T m).rows) none = some rows ∧
      (rows.Pairwise fun a b => b.key < a.key) ∧ (rows.map JobRow.id).Nodup ∧
      (∀ r ∈ rows, p.Selects r ∧ ∃ m ≤ n, r ∈ (T m).rows) ∧
      ∀ r ∈ (T 0).rows, p.Selects r → (∀ m < n, JobTable.Quiet r.id (T m) (σ m)) →
        (rows.map JobRow.id).count r.id = 1 := by
  have hlimit : 0 < (p.query none).pageLimit := Nat.lt_of_lt_of_le Nat.one_pos (le_max_left 1 _)
  obtain ⟨n, rows, hfollow, hlist⟩ :=
    Keyset.follow_rising wellFounded_key (rising_selected hrun p) hlimit
  refine ⟨n, rows, ?_, hlist.sorted, hlist.nodup, fun r hr => ?_, fun r hr hsel hquiet => ?_⟩
  · have heq := followPages_eq p ((List.range (n + 1)).map fun m => (T m).rows) none
    rw [List.map_map] at heq
    exact heq.trans hfollow
  · obtain ⟨m, hm, hmem⟩ := hlist.mem r hr
    obtain ⟨hin, hsel⟩ := List.mem_filter.mp hmem
    exact ⟨of_decide_eq_true hsel, m, hm, hin⟩
  · refine List.count_eq_one_of_mem hlist.nodup ?_
    refine hlist.complete r.id r.key (fun c hc => by cases hc) fun m hm => ?_
    obtain ⟨r', hr', hag⟩ := agrees_of_quiet hrun hr fun i hi => hquiet i (hi.trans_le hm)
    exact ⟨r', List.mem_filter.mpr ⟨hr', decide_eq_true (hag.selects.mpr hsel)⟩, hag.id, hag.key⟩

end Pages

/-- Two jobs of one instant. -/
def twoRows : JobTable where
  rows := [⟨1, "https://a.example/x", ⟨7, by decide⟩, ⟨7, by decide⟩, ⟨.running, .queued, 1, none⟩⟩,
    ⟨2, "https://a.example/y", ⟨7, by decide⟩, ⟨7, by decide⟩, ⟨.running, .queued, 1, none⟩⟩]
  clock := ⟨7, by decide⟩
  distinct := by decide
  stamped := by decide

/-- Two rows with one stamp are listed once each. -/
theorem job_pages_twoRows :
    ∃ n rows, followPages ⟨none, some 1, none, none, none, none⟩
        ((List.range (n + 1)).map fun _ => twoRows.rows) none = some rows ∧
      ∀ r ∈ twoRows.rows, (rows.map JobRow.id).count r.id = 1 := by
  have hrun : ∀ n : ℕ, runEvents JobTable.step ((fun _ => twoRows) n)
      ((fun _ => []) n) = some ((fun _ => twoRows) (n + 1)) := fun _ => rfl
  obtain ⟨n, rows, hfollow, -, -, -, honce⟩ :=
    job_pages hrun ⟨none, some 1, none, none, none, none⟩
  refine ⟨n, rows, hfollow, fun r hr => honce r hr ?_ fun _ _ => trivial⟩
  refine ⟨?_, ?_, ?_, ?_⟩ <;> exact fun _ h => by cases h

end KDown
