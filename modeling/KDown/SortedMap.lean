/-
KDown/SortedMap.lean

Finite maps as key-sorted association lists.

An ordered map of the program (a B-tree map) is modelled by the list of its
entries in key order.  A hash map is modelled by the same type: its iteration
order is unspecified, so key order is one of the orders it may use.  The list
is kept strictly sorted by a field of the structure, which makes the
representation canonical: two maps with the same lookups are equal
(`SortedMap.ext_get?`), and "the map is unchanged" is plain equality.

Everything later modules need about the operations is phrased through `get?`;
the list is only seen by the range queries, whose answers are characterised by
`getLast?_range_eq_some` and `head?_range_eq_some`.
-/
import Mathlib.Data.List.Sort
import Mathlib.Tactic.Common

namespace KDown

/-- A finite map: its entries in strictly increasing key order. -/
structure SortedMap (κ : Type*) [LinearOrder κ] (υ : Type*) where
  entries : List (κ × υ)
  sorted : entries.Pairwise fun a b => a.1 < b.1

namespace SortedMap

variable {κ : Type*} [LinearOrder κ] {υ : Type*}

instance [DecidableEq υ] : DecidableEq (SortedMap κ υ) := fun a b =>
  decidable_of_iff (a.entries = b.entries)
    ⟨fun h => by cases a; cases b; cases h; rfl, fun h => h ▸ rfl⟩

/-! ### Operations -/

/-- The empty map. -/
def empty : SortedMap κ υ := ⟨[], .nil⟩

/-- The value stored under a key. -/
def get? (m : SortedMap κ υ) (k : κ) : Option υ :=
  (m.entries.find? fun e => e.1 = k).map Prod.snd

/-- Whether a key is present. -/
def contains (m : SortedMap κ υ) (k : κ) : Bool := (m.get? k).isSome

/-- Number of entries. -/
def length (m : SortedMap κ υ) : ℕ := m.entries.length

/-- The keys in order. -/
def keys (m : SortedMap κ υ) : List κ := m.entries.map Prod.fst

/-- The values in key order. -/
def values (m : SortedMap κ υ) : List υ := m.entries.map Prod.snd

/-- The entries whose key lies in a range, in key order. -/
def range (m : SortedMap κ υ) (p : κ → Bool) : List (κ × υ) :=
  m.entries.filter fun e => p e.1

/-- Put an entry at its place in a sorted list, replacing an equal key. -/
def insertEntry (k : κ) (v : υ) : List (κ × υ) → List (κ × υ)
  | [] => [(k, v)]
  | e :: l =>
      if k < e.1 then (k, v) :: e :: l
      else if k = e.1 then (k, v) :: l
      else e :: insertEntry k v l

theorem mem_insertEntry_subset {k : κ} {v : υ} {l : List (κ × υ)} {x : κ × υ}
    (h : x ∈ insertEntry k v l) : x = (k, v) ∨ x ∈ l := by
  induction l with
  | nil => exact .inl (by simpa [insertEntry] using h)
  | cons e l ih =>
    unfold insertEntry at h
    split_ifs at h with hlt heq
    · rcases List.mem_cons.mp h with rfl | h
      · exact .inl rfl
      · exact .inr h
    · rcases List.mem_cons.mp h with rfl | h
      · exact .inl rfl
      · exact .inr (List.mem_cons_of_mem _ h)
    · rcases List.mem_cons.mp h with rfl | h
      · exact .inr (List.mem_cons_self ..)
      · exact (ih h).imp_right (List.mem_cons_of_mem _)

/-- Inserting keeps the keys in order. -/
theorem sorted_insertEntry {k : κ} {v : υ} {l : List (κ × υ)}
    (h : l.Pairwise fun a b => a.1 < b.1) :
    (insertEntry k v l).Pairwise fun a b => a.1 < b.1 := by
  induction l with
  | nil => exact List.pairwise_singleton _ _
  | cons e l ih =>
    obtain ⟨he, hl⟩ := List.pairwise_cons.mp h
    unfold insertEntry
    split_ifs with hlt heq
    · refine List.pairwise_cons.mpr ⟨fun x hx => ?_, h⟩
      rcases List.mem_cons.mp hx with rfl | hx
      · exact hlt
      · exact hlt.trans (he x hx)
    · exact List.pairwise_cons.mpr ⟨fun x hx => heq ▸ he x hx, hl⟩
    · -- the new key lies past `e`, and the rest was past `e` before
      refine List.pairwise_cons.mpr ⟨fun x hx => ?_, ih hl⟩
      rcases mem_insertEntry_subset hx with rfl | hx
      · exact lt_of_le_of_ne (not_lt.mp hlt) (Ne.symm heq)
      · exact he x hx

/-- Insert an entry, replacing the value of a present key. -/
def insert (m : SortedMap κ υ) (k : κ) (v : υ) : SortedMap κ υ :=
  ⟨insertEntry k v m.entries, sorted_insertEntry m.sorted⟩

/-- Remove a key. -/
def erase (m : SortedMap κ υ) (k : κ) : SortedMap κ υ :=
  ⟨m.entries.filter fun e => e.1 ≠ k, m.sorted.filter _⟩

/-! ### Entries and lookups -/

theorem key_unique {l : List (κ × υ)} (h : l.Pairwise fun a b => a.1 < b.1)
    {k : κ} {v v' : υ} (h₁ : (k, v) ∈ l) (h₂ : (k, v') ∈ l) : v = v' := by
  induction l with
  | nil => cases h₁
  | cons e l ih =>
    obtain ⟨he, hl⟩ := List.pairwise_cons.mp h
    rcases List.mem_cons.mp h₁ with e₁ | m₁ <;> rcases List.mem_cons.mp h₂ with e₂ | m₂
    · exact (Prod.mk.inj (e₁.trans e₂.symm)).2
    · -- one of the two is the head, and keys grow strictly from there
      exact absurd (e₁ ▸ he _ m₂) (lt_irrefl _)
    · exact absurd (e₂ ▸ he _ m₁) (lt_irrefl _)
    · exact ih hl m₁ m₂

theorem mem_entries {m : SortedMap κ υ} {k : κ} {v : υ} :
    (k, v) ∈ m.entries ↔ m.get? k = some v := by
  unfold get?
  constructor
  · intro h
    rcases e : m.entries.find? (fun e => e.1 = k) with - | ⟨k', v'⟩
    · exact absurd (List.find?_eq_none.mp e _ h) (by simp)
    · have hk : k' = k := by simpa using List.find?_some e
      subst hk
      rw [e, Option.map_some, key_unique m.sorted h (List.mem_of_find?_eq_some e)]
  · intro h
    obtain ⟨⟨k', v'⟩, hf, rfl⟩ := Option.map_eq_some_iff.mp h
    have hk : k' = k := by simpa using List.find?_some hf
    exact hk ▸ List.mem_of_find?_eq_some hf

theorem nodup_entries (m : SortedMap κ υ) : m.entries.Nodup := by
  refine m.sorted.imp fun hlt heq => ?_
  rw [heq] at hlt
  exact lt_irrefl _ hlt

theorem nodup_keys (m : SortedMap κ υ) : m.keys.Nodup := by
  refine List.Pairwise.map _ (fun a b h => ?_) m.sorted
  exact ne_of_lt h

/-- **Two maps with the same lookups are the same map.** -/
theorem ext_get? {m m' : SortedMap κ υ} (h : ∀ k, m.get? k = m'.get? k) : m = m' := by
  have hmem : ∀ e, e ∈ m.entries ↔ e ∈ m'.entries := by
    rintro ⟨k, v⟩
    rw [mem_entries, mem_entries, h]
  have hperm := (List.perm_ext_iff_of_nodup m.nodup_entries m'.nodup_entries).mpr hmem
  have heq : m.entries = m'.entries :=
    hperm.eq_of_pairwise (fun a b _ _ h₁ h₂ => absurd (h₁.trans h₂) (lt_irrefl _))
      m.sorted m'.sorted
  cases m; cases m'; cases heq; rfl

@[simp] theorem get?_empty (k : κ) : (empty : SortedMap κ υ).get? k = none := rfl

theorem mem_insertEntry_of_ne {k a : κ} {v b : υ} (hne : a ≠ k) :
    ∀ {l : List (κ × υ)}, (a, b) ∈ l → (a, b) ∈ insertEntry k v l
  | e :: l, h => by
    unfold insertEntry
    split_ifs with hlt heq
    · exact List.mem_cons_of_mem _ h
    · rcases List.mem_cons.mp h with rfl | h
      · exact absurd heq.symm hne
      · exact List.mem_cons_of_mem _ h
    · rcases List.mem_cons.mp h with rfl | h
      · exact List.mem_cons_self ..
      · exact List.mem_cons_of_mem _ (mem_insertEntry_of_ne hne h)

theorem self_mem_insertEntry (k : κ) (v : υ) (l : List (κ × υ)) :
    (k, v) ∈ insertEntry k v l := by
  induction l with
  | nil => simp [insertEntry]
  | cons e l ih =>
    unfold insertEntry
    split_ifs
    · exact List.mem_cons_self ..
    · exact List.mem_cons_self ..
    · exact List.mem_cons_of_mem _ ih

theorem get?_insert (m : SortedMap κ υ) (k a : κ) (v : υ) :
    (m.insert k v).get? a = if a = k then some v else m.get? a := by
  split_ifs with h
  · subst h
    exact mem_entries.mp (self_mem_insertEntry _ _ _)
  · -- at another key both lists have the same entries
    refine Option.ext fun b => ?_
    rw [← mem_entries, ← mem_entries]
    refine ⟨fun hb => ?_, mem_insertEntry_of_ne h⟩
    rcases mem_insertEntry_subset hb with hb | hb
    · exact absurd (Prod.mk.inj hb).1 h
    · exact hb

@[simp] theorem get?_insert_self (m : SortedMap κ υ) (k : κ) (v : υ) :
    (m.insert k v).get? k = some v := by
  rw [get?_insert, if_pos rfl]

theorem get?_insert_of_ne (m : SortedMap κ υ) {k a : κ} (v : υ) (h : a ≠ k) :
    (m.insert k v).get? a = m.get? a := by
  rw [get?_insert, if_neg h]

theorem get?_erase (m : SortedMap κ υ) (k a : κ) :
    (m.erase k).get? a = if a = k then none else m.get? a := by
  refine Option.ext fun b => ?_
  rw [← mem_entries]
  simp only [erase, List.mem_filter, mem_entries, decide_eq_true_eq]
  split_ifs with h <;> simp [h]

@[simp] theorem get?_erase_self (m : SortedMap κ υ) (k : κ) :
    (m.erase k).get? k = none := by
  rw [get?_erase, if_pos rfl]

theorem get?_erase_of_ne (m : SortedMap κ υ) {k a : κ} (h : a ≠ k) :
    (m.erase k).get? a = m.get? a := by
  rw [get?_erase, if_neg h]

/-- Putting back what was there undoes a removal. -/
theorem insert_erase_self {m : SortedMap κ υ} {k : κ} {v : υ} (h : m.get? k = some v) :
    (m.erase k).insert k v = m := by
  refine ext_get? fun a => ?_
  rw [get?_insert, get?_erase]
  split_ifs with ha
  · rw [ha, h]
  · rfl

/-! ### Range queries -/

theorem mem_range {m : SortedMap κ υ} {p : κ → Bool} {k : κ} {v : υ} :
    (k, v) ∈ m.range p ↔ m.get? k = some v ∧ p k := by
  simp [range, mem_entries]

/-- **The last entry of a range has the greatest key of the range.** -/
theorem getLast?_range_eq_some {m : SortedMap κ υ} {p : κ → Bool} {k : κ} {v : υ}
    (h : (m.range p).getLast? = some (k, v)) :
    m.get? k = some v ∧ p k ∧
      ∀ k' v', m.get? k' = some v' → p k' → k' ≤ k := by
  obtain ⟨init, hinit⟩ := List.getLast?_eq_some_iff.mp h
  have hmem : (k, v) ∈ m.range p := by rw [hinit]; simp
  obtain ⟨hget, hp⟩ := mem_range.mp hmem
  refine ⟨hget, hp, fun k' v' hget' hp' => ?_⟩
  have hmem' : (k', v') ∈ m.range p := mem_range.mpr ⟨hget', hp'⟩
  have hsorted : (init ++ [(k, v)]).Pairwise fun a b => a.1 < b.1 :=
    hinit ▸ m.sorted.filter _
  rw [hinit] at hmem'
  rcases List.mem_append.mp hmem' with hin | hin
  · exact ((List.pairwise_append.mp hsorted).2.2 _ hin (k, v) (by simp)).le
  · exact le_of_eq (Prod.mk.inj (List.mem_singleton.mp hin)).1

/-- **The first entry of a range has the least key of the range.** -/
theorem head?_range_eq_some {m : SortedMap κ υ} {p : κ → Bool} {k : κ} {v : υ}
    (h : (m.range p).head? = some (k, v)) :
    m.get? k = some v ∧ p k ∧
      ∀ k' v', m.get? k' = some v' → p k' → k ≤ k' := by
  obtain ⟨rest, hrest⟩ := List.head?_eq_some_iff.mp h
  have hmem : (k, v) ∈ m.range p := by rw [hrest]; simp
  obtain ⟨hget, hp⟩ := mem_range.mp hmem
  refine ⟨hget, hp, fun k' v' hget' hp' => ?_⟩
  have hmem' : (k', v') ∈ m.range p := mem_range.mpr ⟨hget', hp'⟩
  have hsorted : ((k, v) :: rest).Pairwise fun a b => a.1 < b.1 :=
    hrest ▸ m.sorted.filter _
  rw [hrest] at hmem'
  rcases List.mem_cons.mp hmem' with hin | hin
  · exact le_of_eq (Prod.mk.inj hin).1.symm
  · exact ((List.pairwise_cons.mp hsorted).1 _ hin).le

theorem range_eq_nil {m : SortedMap κ υ} {p : κ → Bool} (h : m.range p = [])
    {k : κ} {v : υ} (hget : m.get? k = some v) : ¬ p k := by
  intro hp
  have := mem_range.mpr ⟨hget, hp⟩
  rw [h] at this
  cases this

/-! ### Size -/

theorem length_erase {m : SortedMap κ υ} {k : κ} {v : υ} (h : m.get? k = some v) :
    (m.erase k).length + 1 = m.length := by
  have hmem := mem_entries.mpr h
  -- split at the entry: by sortedness no other entry has its key
  obtain ⟨pre, post, hsplit⟩ := List.append_of_mem hmem
  have hsorted : (pre ++ (k, v) :: post).Pairwise fun a b => a.1 < b.1 :=
    hsplit ▸ m.sorted
  obtain ⟨-, hpost, hcross⟩ := List.pairwise_append.mp hsorted
  obtain ⟨hk, -⟩ := List.pairwise_cons.mp hpost
  have hpre : pre.filter (fun e => e.1 ≠ k) = pre :=
    List.filter_eq_self.mpr fun e he => by
      simpa using (hcross e he (k, v) (List.mem_cons_self ..)).ne
  have hpost' : post.filter (fun e => e.1 ≠ k) = post :=
    List.filter_eq_self.mpr fun e he => by simpa using (hk e he).ne'
  simp only [length, erase, hsplit, List.filter_append, List.filter_cons, hpre, hpost']
  simp
  omega

theorem erase_insert_self (m : SortedMap κ υ) (k : κ) (v : υ) :
    (m.insert k v).erase k = m.erase k := by
  refine ext_get? fun a => ?_
  rw [get?_erase, get?_erase, get?_insert]
  split_ifs <;> rfl

theorem erase_of_get?_eq_none {m : SortedMap κ υ} {k : κ} (h : m.get? k = none) :
    m.erase k = m := by
  refine ext_get? fun a => ?_
  rw [get?_erase]
  split_ifs with ha
  · rw [ha, h]
  · rfl

/-- Replacing the value of a present key keeps the number of entries. -/
theorem length_insert_of_get? {m : SortedMap κ υ} {k : κ} {v : υ} (h : m.get? k = some v)
    (v' : υ) : (m.insert k v').length = m.length := by
  rw [← length_erase h, ← length_erase (m.get?_insert_self k v'), erase_insert_self]

theorem length_insert_of_get?_eq_none {m : SortedMap κ υ} {k : κ} (h : m.get? k = none)
    (v : υ) : (m.insert k v).length = m.length + 1 := by
  rw [← length_erase (m.get?_insert_self k v), erase_insert_self, erase_of_get?_eq_none h]

theorem length_le_length_insert (m : SortedMap κ υ) (k : κ) (v : υ) :
    m.length ≤ (m.insert k v).length := by
  have hentry : ∀ l : List (κ × υ), l.length ≤ (insertEntry k v l).length := by
    intro l
    induction l with
    | nil => exact Nat.zero_le _
    | cons e l ih =>
      unfold insertEntry
      split_ifs <;> simp only [List.length_cons] <;> omega
  exact hentry m.entries

/-- A map of length zero has no keys. -/
theorem length_eq_zero_iff {m : SortedMap κ υ} : m.length = 0 ↔ ∀ k, m.get? k = none := by
  constructor
  · intro h k
    have : m.entries = [] := List.length_eq_zero_iff.mp h
    simp [get?, this]
  · intro h
    have : m = empty := ext_get? fun k => by rw [h, get?_empty]
    rw [this]; rfl

end SortedMap

end KDown
