/-
KDown/TextScan.lean

Texts taken apart and put together again.

The parsers of header values, file names and references are built from a few
functions of the standard library: trimming, splitting at the first occurrence
of a character, stripping a leading word, reading digits.  Each of them is
characterized here by the texts it can be given: what `splitOnce` returns is
the one way to write the text around a first separator (`splitOnce_eq_some`),
what `trimWith` returns is what is left between two runs of dropped characters
(`trimWith_pad`, `exists_pad`).  Grammars are then written with `++`, and a
parser is compared with its grammar by these lemmas alone.
-/
import KDown.Validators
import Mathlib.Data.List.DropRight

namespace KDown

/-- What holds of each character of a concrete text is computed from the text,
not from all characters there are. -/
theorem forall_mem_of_all {P : Char → Prop} [DecidablePred P] {l : List Char}
    (h : (l.all fun c => decide (P c)) = true) : ∀ c ∈ l, P c :=
  fun c hc => of_decide_eq_true (List.all_eq_true.mp h c hc)

/-! ### Splitting -/

theorem splitOnce_append {c : Char} {l : List Char} (h : c ∉ l) (rest : List Char) :
    splitOnce c (l ++ c :: rest) = some (l, rest) := by
  induction l with
  | nil => rw [List.nil_append, splitOnce, if_pos rfl]
  | cons d l ih =>
    rw [List.mem_cons, not_or] at h
    rw [List.cons_append, splitOnce, if_neg (Ne.symm h.1), ih h.2]
    rfl

/-- **A text is split around the first separator.** -/
theorem splitOnce_eq_some {c : Char} {cs l r : List Char} :
    splitOnce c cs = some (l, r) ↔ cs = l ++ c :: r ∧ c ∉ l := by
  constructor
  · intro h
    induction cs generalizing l with
    | nil => cases h
    | cons d cs ih =>
      rw [splitOnce] at h
      split_ifs at h with hd
      · cases h
        exact ⟨by rw [hd]; rfl, List.not_mem_nil⟩
      · obtain ⟨⟨l', r'⟩, hsplit, heq⟩ := Option.map_eq_some_iff.mp h
        cases heq
        obtain ⟨rfl, hnot⟩ := ih hsplit
        refine ⟨rfl, ?_⟩
        rw [List.mem_cons, not_or]
        exact ⟨Ne.symm hd, hnot⟩
  · rintro ⟨rfl, hnot⟩
    exact splitOnce_append hnot r

theorem splitOnce_eq_none {c : Char} {cs : List Char} : splitOnce c cs = none ↔ c ∉ cs := by
  induction cs with
  | nil => simp [splitOnce]
  | cons d cs ih =>
    rw [splitOnce, List.mem_cons, not_or]
    split_ifs with hd
    · simp [hd]
    · rw [Option.map_eq_none_iff, ih]
      exact (and_iff_right (Ne.symm hd)).symm

theorem afterWord_eq_some {word cs rest : List Char} :
    afterWord word cs = some rest ↔ cs = word ++ rest := by
  induction word generalizing cs with
  | nil => simp [afterWord]
  | cons w word ih =>
    rcases cs with - | ⟨c, cs⟩
    · simp [afterWord]
    · rw [afterWord, List.cons_append, List.cons.injEq]
      split_ifs with hw
      · rw [ih, hw]
        exact (and_iff_right rfl).symm
      · simp [Ne.symm hw]

@[simp] theorem afterWord_append (word rest : List Char) :
    afterWord word (word ++ rest) = some rest := afterWord_eq_some.mpr rfl

/-! ### Trimming -/

/-- Drop the characters in `p` from both ends. -/
def trimWith (p : Char → Bool) (cs : List Char) : List Char := (cs.dropWhile p).rdropWhile p

theorem trimText_eq_trimWith (cs : List Char) : trimText cs = trimWith Char.isWhitespace cs := rfl

/-- The Unicode property `White_Space`, by which `str::trim` drops characters. -/
def isUnicodeWhitespace (c : Char) : Bool :=
  let n := c.toNat
  (9 ≤ n && n ≤ 13) || n = 32 || n = 0x85 || n = 0xA0 || n = 0x1680 ||
    (0x2000 ≤ n && n ≤ 0x200A) || n = 0x2028 || n = 0x2029 || n = 0x202F || n = 0x205F ||
    n = 0x3000

/-- `str::trim`. -/
def trim (cs : List Char) : List Char := trimWith isUnicodeWhitespace cs

section Trim

variable {p : Char → Bool}

theorem dropWhile_append_of_all {l : List Char} (hl : ∀ c ∈ l, p c = true) (cs : List Char) :
    (l ++ cs).dropWhile p = cs.dropWhile p := by
  induction l with
  | nil => rfl
  | cons c l ih =>
    rw [List.cons_append, List.dropWhile_cons_of_pos (hl c List.mem_cons_self)]
    exact ih fun x hx => hl x (List.mem_cons_of_mem _ hx)

theorem rdropWhile_append_of_all {r : List Char} (hr : ∀ c ∈ r, p c = true) (cs : List Char) :
    (cs ++ r).rdropWhile p = cs.rdropWhile p := by
  have hreverse : ∀ c ∈ r.reverse, p c = true := fun c hc => hr c (List.mem_reverse.mp hc)
  rw [List.rdropWhile, List.reverse_append, dropWhile_append_of_all hreverse, List.rdropWhile]

/-- The ends of a text are not dropped. -/
structure Tight (p : Char → Bool) (cs : List Char) : Prop where
  first : ∀ c ∈ cs.head?, p c = false
  last : ∀ c ∈ cs.getLast?, p c = false

theorem Tight.dropWhile {cs : List Char} (h : Tight p cs) : cs.dropWhile p = cs := by
  rcases cs with - | ⟨c, cs⟩
  · rfl
  · exact List.dropWhile_cons_of_neg (by simp [h.first c rfl])

theorem Tight.rdropWhile {cs : List Char} (h : Tight p cs) : cs.rdropWhile p = cs := by
  refine List.rdropWhile_eq_self_iff.mpr fun hne => ?_
  simp [h.last _ (List.getLast?_eq_getLast_of_ne_nil hne)]

theorem tight_of_forall {cs : List Char} (h : ∀ c ∈ cs, p c = false) : Tight p cs :=
  ⟨fun c hc => h c (List.mem_of_mem_head? hc), fun c hc => h c (List.mem_of_getLast? hc)⟩

/-- **Padding on either side is dropped.** -/
theorem trimWith_pad {l cs r : List Char} (hl : ∀ c ∈ l, p c = true) (hcs : Tight p cs)
    (hr : ∀ c ∈ r, p c = true) : trimWith p (l ++ cs ++ r) = cs := by
  rw [trimWith, List.append_assoc, dropWhile_append_of_all hl]
  rcases cs with - | ⟨c, cs⟩
  · -- nothing but padding
    rw [List.nil_append, ← List.append_nil r, dropWhile_append_of_all hr]
    rfl
  · have hc : p c = false := hcs.first c rfl
    rw [List.cons_append, List.dropWhile_cons_of_neg (by simp [hc]), ← List.cons_append,
      rdropWhile_append_of_all hr, hcs.rdropWhile]

/-- **A text without padding is left as it is.** -/
theorem Tight.trimWith {cs : List Char} (h : Tight p cs) : KDown.trimWith p cs = cs := by
  rw [KDown.trimWith, h.dropWhile, h.rdropWhile]

/-- A trimmed text has nothing left to trim. -/
theorem tight_trimWith (cs : List Char) : Tight p (trimWith p cs) := by
  constructor
  · intro c hc
    -- the first character left is the first one not dropped in front
    have hpre : trimWith p cs <+: cs.dropWhile p := List.rdropWhile_prefix p _
    obtain ⟨t, ht⟩ := hpre
    rcases htrim : trimWith p cs with - | ⟨d, ds⟩
    · rw [htrim] at hc
      cases hc
    · rw [htrim] at hc ht
      cases hc
      have hhead := List.head?_dropWhile_not p cs
      rw [← ht] at hhead
      simpa using hhead
  · intro c hc
    have hne : trimWith p cs ≠ [] := fun hnil => by rw [hnil] at hc; cases hc
    have hlast := List.rdropWhile_last_not p (cs.dropWhile p) hne
    have heq : (trimWith p cs).getLast hne = c :=
      Option.some.inj ((List.getLast?_eq_getLast_of_ne_nil hne).symm.trans hc)
    exact Bool.eq_false_iff.mpr fun hp => hlast (heq ▸ hp)

/-- **A text is its trimmed text between two paddings.** -/
theorem exists_pad (p : Char → Bool) (cs : List Char) :
    ∃ l r, cs = l ++ trimWith p cs ++ r ∧ (∀ c ∈ l, p c = true) ∧ ∀ c ∈ r, p c = true := by
  refine ⟨cs.takeWhile p, (cs.dropWhile p).rtakeWhile p, ?_, ?_, ?_⟩
  · rw [trimWith, List.append_assoc, List.rdropWhile_append_rtakeWhile,
      List.takeWhile_append_dropWhile]
  · exact fun c hc => List.mem_takeWhile_imp hc
  · exact fun c hc => List.mem_rtakeWhile_imp hc

end Trim

theorem trimText_of_not_whitespace {cs : List Char} (h : ∀ c ∈ cs, c.isWhitespace = false) :
    trimText cs = cs := by
  rw [trimText_eq_trimWith]
  exact (tight_of_forall h).trimWith

/-! ### Digits -/

theorem digitsValue_toDigits (n : ℕ) : digitsValue (Nat.toDigits 10 n) = n := by
  have h : Nat.ofDigitChars 10 (Nat.toDigits 10 n) 0 = n := Nat.ofDigitChars_ten_toDigits
  rw [Nat.ofDigitChars_eq_foldl] at h
  rw [digitsValue]
  simpa only [Nat.mul_comm] using h

/-- Decimal digits of a 64-bit number. -/
structure Decimal (cs : List Char) (n : ℕ) : Prop where
  nonempty : cs ≠ []
  digits : ∀ c ∈ cs, c.isDigit = true
  value : digitsValue cs = n
  fits : n ≤ u64Max

theorem decimal_toDigits {n : ℕ} (h : n ≤ u64Max) : Decimal (Nat.toDigits 10 n) n where
  nonempty := Nat.toDigits_ne_nil
  digits := fun _ hc => Nat.isDigit_of_mem_toDigits (by decide) (by decide) hc
  value := digitsValue_toDigits n
  fits := h

/-- Digits with an optional plus sign in front. -/
def SignedDecimal (cs : List Char) (n : ℕ) : Prop :=
  Decimal cs n ∨ ∃ ds, cs = '+' :: ds ∧ Decimal ds n

theorem readDigits_eq_some {ds : List Char} {n : ℕ} :
    (if (ds.isEmpty || !ds.all Char.isDigit) = true then none
      else if digitsValue ds ≤ u64Max then some (digitsValue ds) else none) = some n ↔
      Decimal ds n := by
  constructor
  · intro h
    split_ifs at h with hbad hfits
    rw [Bool.or_eq_true, not_or, Bool.not_eq_true', Bool.not_eq_false] at hbad
    cases h
    exact ⟨fun hnil => hbad.1 (List.isEmpty_iff.mpr hnil), List.all_eq_true.mp hbad.2, rfl, hfits⟩
  · rintro ⟨hne, hdigits, rfl, hfits⟩
    have hall : ds.all Char.isDigit = true := List.all_eq_true.mpr hdigits
    have hempty : ds.isEmpty = false := by
      rw [List.isEmpty_eq_false_iff]
      exact hne
    rw [hall, hempty, if_neg (by decide), if_pos hfits]

theorem plus_not_decimal {ds : List Char} {n : ℕ} : ¬ Decimal ('+' :: ds) n := fun h =>
  absurd (h.digits '+' List.mem_cons_self) (by decide)

/-- What the standard library reads as a 64-bit number. -/
theorem parseU64_eq_some {cs : List Char} {n : ℕ} : parseU64 cs = some n ↔ SignedDecimal cs n := by
  by_cases hplus : ∃ ds, cs = '+' :: ds
  · obtain ⟨ds, rfl⟩ := hplus
    have hread : parseU64 ('+' :: ds) = some n ↔ Decimal ds n := readDigits_eq_some
    refine hread.trans ⟨fun h => .inr ⟨ds, rfl, h⟩, ?_⟩
    rintro (h | ⟨ds', heq, h⟩)
    · exact absurd h plus_not_decimal
    · rw [(List.cons.inj heq).2]
      exact h
  · rw [parseU64]
    · refine readDigits_eq_some.trans ⟨.inl, ?_⟩
      rintro (h | ⟨ds, heq, -⟩)
      · exact h
      · exact absurd ⟨ds, heq⟩ hplus
    · intro ds heq
      exact hplus ⟨ds, heq⟩

/-- A character outside the digits and the sign is not part of a number. -/
theorem SignedDecimal.not_mem {cs : List Char} {n : ℕ} (h : SignedDecimal cs n) {c : Char}
    (hc : c.isDigit = false) (hplus : c ≠ '+') : c ∉ cs := by
  have hdec : ∀ {ds : List Char}, Decimal ds n → c ∉ ds := by
    intro ds hds hmem
    rw [hds.digits c hmem] at hc
    cases hc
  rcases h with h | ⟨ds, rfl, h⟩
  · exact hdec h
  · rw [List.mem_cons, not_or]
    exact ⟨hplus, hdec h⟩

theorem SignedDecimal.nonempty {cs : List Char} {n : ℕ} (h : SignedDecimal cs n) : cs ≠ [] := by
  rcases h with h | ⟨ds, rfl, h⟩
  · exact h.nonempty
  · exact List.cons_ne_nil _ _

end KDown
