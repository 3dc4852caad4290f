/-
KDown/KeysetPages.lean

Keyset pagination: the rows of a table in descending order of a key, page by
page, each page beginning below the key of the last row of the one before.

A page asks for one row more than it returns; when that row is there, the last
row returned is the cursor of the next page.  The table may change between the
pages.  `follow` concatenates the pages of a sequence of tables, one table for
each page.

If rows only move up, that is if a row never gets a smaller key than the row
with its identity had in an earlier table, and if there is no infinite descent
of keys, then `follow_rising` says that the iteration ends, that it lists rows
in descending order and no identity twice, and that it lists every identity
that keeps its key in all the tables.
-/
import Mathlib.Data.List.Sort
import Mathlib.Order.WellFounded
import Mathlib.Tactic.Common

namespace KDown

namespace Keyset

variable {α κ ι : Type*} [LinearOrder κ] (key : α → κ)

/-! ### One page -/

/-- The rows in descending order of their keys. -/
def sortDesc (rows : List α) : List α := rows.insertionSort fun a b => key b ≤ key a

/-- The records of a page and its last one, if another record was found behind
them. -/
def cut (limit : ℕ) (records : List α) : List α × Option α :=
  if limit < records.length then (records.dropLast, records.dropLast.getLast?) else (records, none)

/-- The first `limit` rows, and the last of them when there are more. -/
def page (limit : ℕ) (rows : List α) : List α × Option α :=
  cut limit ((sortDesc key rows).take (limit + 1))

theorem cut_take (limit : ℕ) (l : List α) :
    cut limit (l.take (limit + 1)) =
      if limit < l.length then (l.take limit, (l.take limit).getLast?) else (l, none) := by
  rw [cut, List.length_take]
  by_cases h : limit < l.length
  · have hlen : min (limit + 1) l.length = limit + 1 := min_eq_left h
    have hdrop : (l.take (limit + 1)).dropLast = l.take limit := by
      rw [List.dropLast_eq_take, List.length_take, hlen, List.take_take]
      congr 1
      omega
    rw [hlen, if_pos (Nat.lt_succ_self _), if_pos h, hdrop]
  · have hle : l.length ≤ limit + 1 := by omega
    rw [if_neg (by omega), if_neg h, List.take_of_length_le hle]

variable {key} {limit : ℕ} {rows : List α}

theorem mem_sortDesc {a : α} : a ∈ sortDesc key rows ↔ a ∈ rows :=
  (List.perm_insertionSort _ rows).mem_iff

theorem sortDesc_perm : (sortDesc key rows).Perm rows := List.perm_insertionSort _ rows

/-- Rows with different keys are sorted strictly. -/
theorem sortDesc_pairwise (hinj : (rows.map key).Nodup) :
    (sortDesc key rows).Pairwise fun a b => key b < key a := by
  have htotal : Std.Total fun a b : α => key b ≤ key a := ⟨fun a b => le_total _ _⟩
  have htrans : IsTrans α fun a b => key b ≤ key a := ⟨fun a b c hab hbc => hbc.trans hab⟩
  have hsorted := List.pairwise_insertionSort (fun a b : α => key b ≤ key a) rows
  have hnodup : (sortDesc key rows).Pairwise fun a b => key a ≠ key b := by
    rw [← List.pairwise_map]
    exact (sortDesc_perm.map key).nodup_iff.mpr hinj
  exact hsorted.imp₂ (fun a b hle hne => lt_of_le_of_ne hle (Ne.symm hne)) hnodup

/-- What a page returns. -/
structure PageSpec (key : α → κ) (rows page : List α) (last : Option α) : Prop where
  sorted : page.Pairwise fun a b => key b < key a
  sublist : ∀ a ∈ page, a ∈ rows
  /-- Without a cursor nothing is left. -/
  complete : last = none → ∀ a ∈ rows, a ∈ page
  /-- The cursor is the least row returned, and what is missing is below it. -/
  cursor : ∀ l ∈ last, l ∈ page ∧ (∀ a ∈ page, key l ≤ key a) ∧
    ∀ a ∈ rows, a ∉ page → key a < key l

/-- **What a page is**: the first rows behind the cursor, in order. -/
theorem page_spec (hpos : 0 < limit) (hinj : (rows.map key).Nodup) :
    PageSpec key rows (page key limit rows).1 (page key limit rows).2 := by
  have hsorted := sortDesc_pairwise hinj
  rw [page, cut_take]
  split_ifs with hmore
  · refine ⟨hsorted.sublist (List.take_sublist _ _),
      fun a ha => mem_sortDesc.mp (List.mem_of_mem_take ha), fun hnone => ?_, fun l hl => ?_⟩
    · have hlen := congrArg List.length (List.getLast?_eq_none_iff.mp hnone)
      rw [List.length_take] at hlen
      simp only [List.length_nil] at hlen
      omega
    · obtain ⟨init, hinit⟩ := List.getLast?_eq_some_iff.mp hl
      have hsplit : sortDesc key rows = (init ++ [l]) ++ (sortDesc key rows).drop limit := by
        rw [← hinit, List.take_append_drop]
      rw [hsplit, List.pairwise_append, List.pairwise_append] at hsorted
      obtain ⟨⟨-, -, hfront⟩, -, hback⟩ := hsorted
      have hmem : l ∈ init ++ [l] := List.mem_append_right _ (List.mem_singleton_self l)
      rw [hinit]
      refine ⟨hmem, fun a ha => ?_, fun a ha hno => ?_⟩
      · rcases List.mem_append.mp ha with ha | ha
        · exact (hfront a ha l (List.mem_singleton_self l)).le
        · rw [List.mem_singleton.mp ha]
      · have hin : a ∈ sortDesc key rows := mem_sortDesc.mpr ha
        rw [hsplit] at hin
        rcases List.mem_append.mp hin with hin | hin
        · exact absurd hin hno
        · exact hback l hmem a hin
  · exact ⟨hsorted, fun a ha => mem_sortDesc.mp ha, fun _ a ha => mem_sortDesc.mpr ha,
      fun l hl => by cases hl⟩

/-! ### Page after page -/

/-- The row comes after the cursor. -/
def Below (key : α → κ) (cursor : Option κ) (a : α) : Prop := ∀ k ∈ cursor, key a < k

instance (key : α → κ) (cursor : Option κ) (a : α) : Decidable (Below key cursor a) :=
  match cursor with
  | none => isTrue fun _ h => absurd h (Option.not_mem_none _)
  | some k => decidable_of_iff (key a < k) ⟨fun h _ hk => Option.some.inj hk ▸ h, fun h => h k rfl⟩

/-- The pages of an iteration that takes one page of each table and ends with
the last table. -/
def follow (key : α → κ) (limit : ℕ) : List (List α) → Option κ → Option (List α)
  | [], _ => none
  | rows :: tables, cursor =>
      match page key limit (rows.filter fun a => Below key cursor a) with
      | (records, none) => if tables.isEmpty then some records else none
      | (records, some last) => (follow key limit tables (some (key last))).map (records ++ ·)

/-- A sequence of tables whose rows only move up. -/
structure Rising (key : α → κ) (id : α → ι) (tables : ℕ → List α) : Prop where
  distinct : ∀ n, ((tables n).map id).Nodup
  keys : ∀ n, ((tables n).map key).Nodup
  up : ∀ n m, n < m → ∀ a ∈ tables n, ∀ b ∈ tables m, id a = id b → key a ≤ key b

theorem Rising.tail {id : α → ι} {tables : ℕ → List α} (h : Rising key id tables) :
    Rising key id fun n => tables (n + 1) where
  distinct := fun n => h.distinct (n + 1)
  keys := fun n => h.keys (n + 1)
  up := fun n m hnm => h.up (n + 1) (m + 1) (Nat.succ_lt_succ hnm)

/-- The identity has the key in every table up to `n`. -/
def Stays (key : α → κ) (id : α → ι) (tables : ℕ → List α) (n : ℕ) (i : ι) (k : κ) : Prop :=
  ∀ m ≤ n, ∃ a ∈ tables m, id a = i ∧ key a = k

/-- What an iteration from a cursor lists, when it takes `n + 1` pages. -/
structure Listing (key : α → κ) (id : α → ι) (tables : ℕ → List α) (cursor : Option κ) (n : ℕ)
    (rows : List α) : Prop where
  sorted : rows.Pairwise fun a b => key b < key a
  below : ∀ a ∈ rows, Below key cursor a
  nodup : (rows.map id).Nodup
  mem : ∀ a ∈ rows, ∃ m ≤ n, a ∈ tables m
  complete : ∀ i k, (∀ c ∈ cursor, k < c) → Stays key id tables n i k → i ∈ rows.map id

section Follow

variable {id : α → ι} {tables : ℕ → List α} {cursor : Option κ}

/-- **The page of a table whose rows only move up.** -/
theorem Rising.page_spec (h : Rising key id tables) (hpos : 0 < limit) (cursor : Option κ) :
    PageSpec key ((tables 0).filter fun a => Below key cursor a)
      (page key limit ((tables 0).filter fun a => Below key cursor a)).1
      (page key limit ((tables 0).filter fun a => Below key cursor a)).2 :=
  Keyset.page_spec hpos ((h.keys 0).sublist (List.filter_sublist.map key))

theorem PageSpec.mem_filter {rows page : List α} {last : Option α}
    (h : PageSpec key (rows.filter fun a => Below key cursor a) page last) {a : α}
    (ha : a ∈ page) : a ∈ rows ∧ Below key cursor a := by
  have hmem := List.mem_filter.mp (h.sublist a ha)
  exact ⟨hmem.1, of_decide_eq_true hmem.2⟩

theorem PageSpec.nodup_map {last : Option α} (hr : Rising key id tables)
    (h : PageSpec key ((tables 0).filter fun a => Below key cursor a) rows last) :
    (rows.map id).Nodup := by
  rw [List.Nodup, List.pairwise_map]
  refine h.sorted.imp_of_mem fun {a b} ha hb hlt heq => ?_
  have hab : a = b :=
    List.inj_on_of_nodup_map (hr.distinct 0) (h.mem_filter ha).1 (h.mem_filter hb).1 heq
  rw [hab] at hlt
  exact lt_irrefl _ hlt

/-- A page without a cursor ends the iteration. -/
theorem Listing.of_last {records : List α} (hr : Rising key id tables)
    (h : PageSpec key ((tables 0).filter fun a => Below key cursor a) records none) :
    Listing key id tables cursor 0 records where
  sorted := h.sorted
  below := fun a ha => (h.mem_filter ha).2
  nodup := h.nodup_map hr
  mem := fun a ha => ⟨0, le_rfl, (h.mem_filter ha).1⟩
  complete := fun i k hk hstays => by
    obtain ⟨a, ha, hi, rfl⟩ := hstays 0 le_rfl
    have hmem := h.complete rfl a (List.mem_filter.mpr ⟨ha, decide_eq_true hk⟩)
    exact List.mem_map.mpr ⟨a, hmem, hi⟩

/-- A page in front of an iteration of the later tables. -/
theorem Listing.cons {records : List α} {last : α} {n : ℕ} (hr : Rising key id tables)
    (h : PageSpec key ((tables 0).filter fun a => Below key cursor a) records (some last))
    (hrest : Listing key id (fun m => tables (m + 1)) (some (key last)) n rows) :
    Listing key id tables cursor (n + 1) (records ++ rows) := by
  obtain ⟨hlast, hleast, hmissing⟩ := h.cursor last rfl
  have hlow : ∀ b ∈ rows, key b < key last := fun b hb => hrest.below b hb _ rfl
  refine ⟨?_, fun a ha => ?_, ?_, fun a ha => ?_, fun i k hk hstays => ?_⟩
  · refine List.pairwise_append.mpr ⟨h.sorted, hrest.sorted, fun a ha b hb => ?_⟩
    exact (hlow b hb).trans_le (hleast a ha)
  · rcases List.mem_append.mp ha with ha | ha
    · exact (h.mem_filter ha).2
    · exact fun c hc => (hlow a ha).trans ((h.mem_filter hlast).2 c hc)
  · rw [List.map_append]
    refine List.nodup_append.mpr ⟨h.nodup_map hr, hrest.nodup, fun i hi i' hi' => ?_⟩
    rintro rfl
    obtain ⟨a, ha, rfl⟩ := List.mem_map.mp hi
    obtain ⟨b, hb, hid⟩ := List.mem_map.mp hi'
    obtain ⟨m, -, hbm⟩ := hrest.mem b hb
    -- the row would have moved down
    have hup := hr.up 0 (m + 1) (Nat.succ_pos m) a (h.mem_filter ha).1 b hbm hid.symm
    exact absurd ((hleast a ha).trans hup) (not_le.mpr (hlow b hb))
  · rcases List.mem_append.mp ha with ha | ha
    · exact ⟨0, Nat.zero_le _, (h.mem_filter ha).1⟩
    · obtain ⟨m, hm, ham⟩ := hrest.mem a ha
      exact ⟨m + 1, Nat.succ_le_succ hm, ham⟩
  · rw [List.map_append, List.mem_append]
    obtain ⟨a, ha, hi, hkey⟩ := hstays 0 (Nat.zero_le _)
    have hbelow : Below key cursor a := fun c hc => hkey ▸ hk c hc
    by_cases hin : a ∈ records
    · exact .inl (List.mem_map.mpr ⟨a, hin, hi⟩)
    · have hlt := hmissing a (List.mem_filter.mpr ⟨ha, decide_eq_true hbelow⟩) hin
      refine .inr (hrest.complete i k (fun c hc => ?_) fun m hm => ?_)
      · rw [← Option.some.inj hc, ← hkey]
        exact hlt
      · exact hstays (m + 1) (Nat.succ_le_succ hm)

/-- One page, and the rest if there is a cursor. -/
theorem follow_step (hr : Rising key id tables) (hpos : 0 < limit)
    (hrest : ∀ last, (∀ c ∈ cursor, key last < c) →
      ∃ n rows, follow key limit ((List.range (n + 1)).map fun m => tables (m + 1))
          (some (key last)) = some rows ∧
        Listing key id (fun m => tables (m + 1)) (some (key last)) n rows) :
    ∃ n rows, follow key limit ((List.range (n + 1)).map tables) cursor = some rows ∧
      Listing key id tables cursor n rows := by
  have hspec := hr.page_spec hpos cursor
  rcases hpage : page key limit ((tables 0).filter fun a => Below key cursor a) with
    ⟨records, - | last⟩ <;> rw [hpage] at hspec
  · refine ⟨0, records, ?_, .of_last hr hspec⟩
    show follow key limit [tables 0] cursor = some records
    rw [follow, hpage]
    rfl
  · have hbelow := (hspec.mem_filter (hspec.cursor last rfl).1).2
    obtain ⟨n, rows, hfollow, hlisting⟩ := hrest last hbelow
    refine ⟨n + 1, records ++ rows, ?_, .cons hr hspec hlisting⟩
    rw [List.range_succ_eq_map, List.map_cons, List.map_map]
    show follow key limit (tables 0 :: (List.range (n + 1)).map fun m => tables (m + 1)) cursor = _
    rw [follow, hpage]
    simp only [hfollow, Option.map_some]

/-- The iteration over tables whose rows only move up ends, and its rows are a
listing.  Keys do not descend forever. -/
theorem follow_rising (hwf : WellFounded fun a b : α => key a < key b)
    (hr : Rising key id tables) (hpos : 0 < limit) :
    ∃ n rows, follow key limit ((List.range (n + 1)).map tables) none = some rows ∧
      Listing key id tables none n rows := by
  -- the cursor descends from page to page
  have hcursor : ∀ (l : α) (tables : ℕ → List α), Rising key id tables →
      ∃ n rows, follow key limit ((List.range (n + 1)).map tables) (some (key l)) = some rows ∧
        Listing key id tables (some (key l)) n rows := by
    intro l
    induction l using hwf.induction with
    | _ l ih =>
      intro tables hr
      exact follow_step hr hpos fun last hlt => ih last (hlt _ rfl) _ hr.tail
  exact follow_step hr hpos fun last _ => hcursor last _ hr.tail

end Follow

end Keyset

end KDown
