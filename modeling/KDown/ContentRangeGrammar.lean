/-
KDown/ContentRangeGrammar.lean

The grammar of `Content-Range` (`parse_content_range` in http/validators.rs).

`StrictContentRange` is the grammar of the header: `bytes S-E/T` or
`bytes S-E/*` with `S ≤ E < T`.  `ContentRangeText` is what the parser reads
by design: it trims the value and each of its three parts, and it reads numbers
as the standard library does, which lets a plus sign pass.

* `parseContentRange_eq_ok`: the parser is the inverse of `ContentRangeText`.
* `content_range_grammar`: what it accepts, for every header text, and that it
  reads back what is rendered.
* `content_range_padded`: a text outside the strict grammar that is accepted.

The parser compares the two bounds with each other and neither with the total.
`content_range_grammar` leaves that open: it speaks about totals past the end.
-/
import KDown.TextScan

namespace KDown

/-! ### Header texts -/

/-- A header value as it reaches the parsers: visible ASCII, blanks and tabs. -/
structure HeaderText where
  text : String
  visible : ∀ c ∈ text.toList, c = '\t' ∨ ' ' ≤ c ∧ c ≤ '~'

/-- Blanks, as trimming drops them. -/
def Blank (cs : List Char) : Prop := ∀ c ∈ cs, c.isWhitespace = true

theorem blank_nil : Blank [] := fun c hc => by cases hc

/-- The text `core` between blanks. -/
def Padded (core cs : List Char) : Prop := ∃ l r, cs = l ++ core ++ r ∧ Blank l ∧ Blank r

theorem padded_trimText (cs : List Char) : Padded (trimText cs) cs :=
  exists_pad Char.isWhitespace cs

theorem Padded.trimText {core cs : List Char} (h : Padded core cs)
    (hcore : Tight Char.isWhitespace core) : KDown.trimText cs = core := by
  obtain ⟨l, r, rfl, hl, hr⟩ := h
  exact trimWith_pad hl hcore hr

/-! ### The grammars -/

/-- A number between blanks. -/
def NumberText (cs : List Char) (n : ℕ) : Prop := ∃ core, SignedDecimal core n ∧ Padded core cs

/-- A total, or a star for an unknown one, between blanks. -/
def TotalText (cs : List Char) (total : Option ℕ) : Prop :=
  (total = none ∧ Padded ['*'] cs) ∨ ∃ n, total = some n ∧ NumberText cs n

/-- The texts that are read as `cr`. -/
structure ContentRangeText (cs : List Char) (cr : ContentRange) : Prop where
  shape : ∃ pad s e t, cs = pad ++ ("bytes ".toList ++ (s ++ '-' :: e) ++ '/' :: t) ∧
    Blank pad ∧ NumberText s cr.start ∧ NumberText e cr.stop ∧ TotalText t cr.total
  ordered : cr.start ≤ cr.stop

/-- The grammar of the header. -/
structure StrictContentRange (cs : List Char) (cr : ContentRange) : Prop where
  shape : ∃ s e t, cs = "bytes ".toList ++ (s ++ '-' :: e) ++ '/' :: t ∧
    Decimal s cr.start ∧ Decimal e cr.stop ∧
    ((cr.total = none ∧ t = ['*']) ∨ ∃ n, cr.total = some n ∧ Decimal t n)
  ordered : cr.start ≤ cr.stop
  inside : ∀ n, cr.total = some n → cr.stop < n

theorem isWhitespace_of_mem_number {core : List Char} {n : ℕ} (h : SignedDecimal core n) {c : Char}
    (hc : c ∈ core) : c.isWhitespace = false := by
  by_contra hws
  rw [Bool.not_eq_false] at hws
  -- neither a digit nor the sign is a blank
  have hnot : c.isDigit = false ∧ c ≠ '+' := by
    simp only [Char.isWhitespace, Bool.or_eq_true, decide_eq_true_eq] at hws
    rcases hws with ((rfl | rfl) | rfl) | rfl <;> decide
  exact h.not_mem hnot.1 hnot.2 hc

theorem parseU64_trimText_eq_some {cs : List Char} {n : ℕ} :
    parseU64 (trimText cs) = some n ↔ NumberText cs n := by
  rw [parseU64_eq_some]
  constructor
  · exact fun h => ⟨trimText cs, h, padded_trimText cs⟩
  · rintro ⟨core, hcore, hpad⟩
    rw [hpad.trimText (tight_of_forall fun c hc => isWhitespace_of_mem_number hcore hc)]
    exact hcore

/-- The total is read from exactly the texts of the grammar. -/
theorem totalOf_trimText_eq_some {cs : List Char} {total : Option ℕ} :
    parseContentRange.totalOf (trimText cs) = some total ↔ TotalText cs total := by
  have hstar : Tight Char.isWhitespace ['*'] := tight_of_forall (forall_mem_of_all (by decide))
  rw [parseContentRange.totalOf]
  constructor
  · intro h
    split_ifs at h with heq
    · cases h
      exact .inl ⟨rfl, heq ▸ padded_trimText cs⟩
    · obtain ⟨n, hn, rfl⟩ := Option.map_eq_some_iff.mp h
      exact .inr ⟨n, rfl, parseU64_trimText_eq_some.mp hn⟩
  · rintro (⟨rfl, hpad⟩ | ⟨n, rfl, hn⟩)
    · rw [if_pos (hpad.trimText hstar)]
    · have hparse := parseU64_trimText_eq_some.mpr hn
      rw [if_neg, hparse]
      · rfl
      · intro heq
        rw [heq] at hparse
        cases hparse

/-- Separators stand outside numbers and their padding. -/
theorem NumberText.not_mem {cs : List Char} {n : ℕ} (h : NumberText cs n) {c : Char}
    (hdigit : c.isDigit = false) (hplus : c ≠ '+') (hws : c.isWhitespace = false) : c ∉ cs := by
  obtain ⟨core, hcore, l, r, rfl, hl, hr⟩ := h
  have hpad : ∀ {pad : List Char}, Blank pad → c ∉ pad := by
    intro pad hblank hmem
    rw [hblank c hmem] at hws
    cases hws
  simp only [List.mem_append, not_or]
  exact ⟨⟨hpad hl, hcore.not_mem hdigit hplus⟩, hpad hr⟩

/-- What the parser reads once the value is trimmed. -/
theorem contentRangeOf_eq_some {cs : List Char} {cr : ContentRange} :
    parseContentRange.contentRangeOf cs = some cr ↔
      ∃ s e t, cs = "bytes ".toList ++ (s ++ '-' :: e) ++ '/' :: t ∧
        NumberText s cr.start ∧ NumberText e cr.stop ∧ TotalText t cr.total := by
  constructor
  · intro h
    obtain ⟨rest, hrest, h⟩ := Option.bind_eq_some_iff.mp h
    obtain ⟨⟨range, t⟩, hsplit, h⟩ := Option.bind_eq_some_iff.mp h
    obtain ⟨⟨s, e⟩, hbounds, h⟩ := Option.bind_eq_some_iff.mp h
    obtain ⟨start, hstart, h⟩ := Option.bind_eq_some_iff.mp h
    obtain ⟨stop, hstop, h⟩ := Option.bind_eq_some_iff.mp h
    obtain ⟨total, htotal, h⟩ := Option.bind_eq_some_iff.mp h
    cases h
    obtain ⟨rfl, -⟩ := splitOnce_eq_some.mp hsplit
    obtain ⟨rfl, -⟩ := splitOnce_eq_some.mp hbounds
    refine ⟨s, e, t, ?_, parseU64_trimText_eq_some.mp hstart, parseU64_trimText_eq_some.mp hstop,
      totalOf_trimText_eq_some.mp htotal⟩
    rw [afterWord_eq_some.mp hrest]
    simp only [List.append_assoc, List.cons_append]
  · rintro ⟨s, e, t, rfl, hs, he, ht⟩
    have hslash : '/' ∉ s ++ '-' :: e := by
      simp only [List.mem_append, List.mem_cons, not_or]
      exact ⟨hs.not_mem (by decide) (by decide) (by decide), by decide,
        he.not_mem (by decide) (by decide) (by decide)⟩
    have hdash : '-' ∉ s := hs.not_mem (by decide) (by decide) (by decide)
    have hrest : afterWord "bytes ".toList ("bytes ".toList ++ (s ++ '-' :: e) ++ '/' :: t) =
        some ((s ++ '-' :: e) ++ '/' :: t) := by
      rw [List.append_assoc, afterWord_append]
    have hs' := parseU64_trimText_eq_some.mpr hs
    have he' := parseU64_trimText_eq_some.mpr he
    have ht' := totalOf_trimText_eq_some.mpr ht
    simp only [parseContentRange.contentRangeOf, hrest, splitOnce_append hslash,
      splitOnce_append hdash, hs', he', ht', Option.bind_eq_bind, Option.bind_some]
    rfl

/-- Blanks behind the value are blanks behind the total. -/
theorem TotalText.trimmed {t r : List Char} {total : Option ℕ} (hr : Blank r) :
    TotalText (t ++ r) total ↔ TotalText t total := by
  rw [← totalOf_trimText_eq_some, ← totalOf_trimText_eq_some]
  have htrim : trimText (t ++ r) = trimText t := by
    obtain ⟨l, r', ht, hl, hr'⟩ := padded_trimText t
    have hpad : Padded (trimText t) (t ++ r) := by
      refine ⟨l, r' ++ r, ?_, hl, fun c hc => (List.mem_append.mp hc).elim (hr' c) (hr c)⟩
      rw [← List.append_assoc, ← ht]
    exact hpad.trimText (tight_trimWith t)
  rw [htrim]

theorem TotalText.not_blank {t : List Char} {total : Option ℕ} (h : TotalText t total) :
    ∃ c ∈ t, c.isWhitespace = false := by
  rcases h with ⟨-, l, r, rfl, -, -⟩ | ⟨n, -, core, hcore, l, r, rfl, -, -⟩
  · exact ⟨'*', by simp, by decide⟩
  · obtain ⟨c, hc⟩ := List.exists_mem_of_ne_nil core hcore.nonempty
    exact ⟨c, by simp [hc], isWhitespace_of_mem_number hcore hc⟩

/-- **The parser accepts the texts of the wider grammar, and reads their
numbers.** -/
theorem parseContentRange_eq_ok {v : String} {cr : ContentRange} :
    parseContentRange v = .ok cr ↔ ContentRangeText v.toList cr := by
  have hok : parseContentRange v = .ok cr ↔
      parseContentRange.contentRangeOf (trimText v.toList) = some cr ∧ cr.start ≤ cr.stop := by
    rw [parseContentRange]
    rcases parseContentRange.contentRangeOf (trimText v.toList) with - | cr'
    · simp
    · simp only [Option.some.injEq]
      split_ifs with hlt
      · constructor
        · rintro ⟨⟩
        · rintro ⟨rfl, hle⟩
          exact absurd hle (by omega)
      · rw [Except.ok.injEq]
        constructor
        · rintro rfl
          exact ⟨rfl, not_lt.mp hlt⟩
        · exact And.left
  rw [hok, contentRangeOf_eq_some]
  constructor
  · rintro ⟨⟨s, e, t, htrim, hs, he, ht⟩, hle⟩
    -- the blanks around the value go to the front and to the total
    obtain ⟨l, r, hv, hl, hr⟩ := padded_trimText v.toList
    refine ⟨⟨l, s, e, t ++ r, ?_, hl, hs, he, (TotalText.trimmed hr).mpr ht⟩, hle⟩
    rw [hv, htrim]
    simp only [List.append_assoc, List.cons_append]
  · rintro ⟨⟨pad, s, e, t, hv, hpad, hs, he, ht⟩, hle⟩
    refine ⟨?_, hle⟩
    -- the value ends where the total, without the blanks behind it, ends
    let t' : List Char := t.rdropWhile Char.isWhitespace
    have hsplit : t = t' ++ t.rtakeWhile Char.isWhitespace :=
      List.rdropWhile_append_rtakeWhile.symm
    have hblank : Blank (t.rtakeWhile Char.isWhitespace) := fun c hc => List.mem_rtakeWhile_imp hc
    have ht' : TotalText t' cr.total := (TotalText.trimmed hblank).mp (hsplit ▸ ht)
    have hne : t' ≠ [] := by
      obtain ⟨c, hc, -⟩ := ht'.not_blank
      exact List.ne_nil_of_mem hc
    have htight : Tight Char.isWhitespace ("bytes ".toList ++ (s ++ '-' :: e) ++ '/' :: t') := by
      constructor
      · intro c hc
        cases hc
        decide
      · intro c hc
        rw [List.getLast?_append_of_ne_nil _ (List.cons_ne_nil _ _),
          List.getLast?_cons_of_ne_nil hne, List.getLast?_eq_getLast_of_ne_nil hne] at hc
        cases hc
        exact Bool.eq_false_iff.mpr (List.rdropWhile_last_not _ t hne)
    refine ⟨s, e, t', ?_, hs, he, ht'⟩
    refine Padded.trimText ⟨pad, t.rtakeWhile Char.isWhitespace, ?_, hpad, hblank⟩ htight
    rw [hv]
    conv_lhs => rw [hsplit]
    simp only [List.append_assoc, List.cons_append]

/-! ### Rendering -/

/-- `bytes S-E/T` or `bytes S-E/*`. -/
def renderContentRange (cr : ContentRange) : String :=
  let total : List Char :=
    match cr.total with
    | some n => Nat.toDigits 10 n
    | none => ['*']
  String.ofList ("bytes ".toList ++ (Nat.toDigits 10 cr.start ++ '-' :: Nat.toDigits 10 cr.stop) ++
    '/' :: total)

theorem Decimal.numberText {cs : List Char} {n : ℕ} (h : Decimal cs n) : NumberText cs n :=
  ⟨cs, .inl h, [], [], by simp, blank_nil, blank_nil⟩

/-- The strict grammar is part of what is read. -/
theorem StrictContentRange.contentRangeText {cs : List Char} {cr : ContentRange}
    (h : StrictContentRange cs cr) : ContentRangeText cs cr := by
  obtain ⟨⟨s, e, t, rfl, hs, he, ht⟩, hle, -⟩ := h
  refine ⟨⟨[], s, e, t, rfl, blank_nil, hs.numberText, he.numberText, ?_⟩, hle⟩
  rcases ht with ⟨htotal, rfl⟩ | ⟨n, htotal, hn⟩
  · exact .inl ⟨htotal, [], [], rfl, blank_nil, blank_nil⟩
  · exact .inr ⟨n, htotal, hn.numberText⟩

/-- A range of 64-bit offsets inside its total. -/
structure InsideTotal (cr : ContentRange) : Prop where
  ordered : cr.start ≤ cr.stop
  fits : cr.stop ≤ u64Max
  inside : ∀ n, cr.total = some n → cr.stop < n ∧ n ≤ u64Max

theorem strict_render {cr : ContentRange} (h : InsideTotal cr) :
    StrictContentRange (renderContentRange cr).toList cr := by
  have hstart : cr.start ≤ u64Max := h.ordered.trans h.fits
  refine ⟨⟨_, _, _, String.toList_ofList, decimal_toDigits hstart, decimal_toDigits h.fits, ?_⟩,
    h.ordered, fun n hn => (h.inside n hn).1⟩
  rcases htotal : cr.total with - | n
  · exact .inl ⟨rfl, rfl⟩
  · exact .inr ⟨n, rfl, decimal_toDigits (h.inside n htotal).2⟩

theorem NumberText.fits {cs : List Char} {n : ℕ} (h : NumberText cs n) : n ≤ u64Max := by
  obtain ⟨core, h | ⟨ds, -, h⟩, -⟩ := h
  · exact h.fits
  · exact h.fits

/-- **The parser of `Content-Range` on every header text.**  Among the ranges
that end before their total, or have none, it accepts exactly the texts of the
form `bytes S-E/T` and `bytes S-E/*` with 64-bit decimal numbers `S ≤ E`, blanks
around the value and its parts and plus signs in front of numbers allowed, and
reads the numbers; every text of the strict form is among them.  Whatever is
accepted has its bounds in order.  A rendered range is read back. -/
theorem content_range_grammar (v : HeaderText) (cr : ContentRange) :
    ((∀ n, cr.total = some n → cr.stop < n) →
      (parseContentRange v.text = .ok cr ↔ ContentRangeText v.text.toList cr) ∧
      (parseContentRange v.text = .ok cr → InsideTotal cr)) ∧
    (StrictContentRange v.text.toList cr → parseContentRange v.text = .ok cr) ∧
    (parseContentRange v.text = .ok cr → cr.start ≤ cr.stop) ∧
    (InsideTotal cr → parseContentRange (renderContentRange cr) = .ok cr) := by
  refine ⟨fun hinside => ⟨parseContentRange_eq_ok, fun h => ?_⟩, fun h => ?_, fun h => ?_,
    fun h => ?_⟩
  · obtain ⟨⟨pad, s, e, t, -, -, -, he, ht⟩, hle⟩ := parseContentRange_eq_ok.mp h
    refine ⟨hle, he.fits, fun n hn => ⟨hinside n hn, ?_⟩⟩
    rcases ht with ⟨hnone, -⟩ | ⟨m, hm, hnumber⟩
    · rw [hnone] at hn
      cases hn
    · obtain rfl : m = n := Option.some.inj (hm.symm.trans hn)
      exact hnumber.fits
  · exact parseContentRange_eq_ok.mpr h.contentRangeText
  · exact (parseContentRange_eq_ok.mp h).ordered
  · exact parseContentRange_eq_ok.mpr (strict_render h).contentRangeText

/-- Behind the first word of a strict text stand no blanks and no signs. -/
theorem StrictContentRange.not_mem {cs : List Char} {cr : ContentRange}
    (h : StrictContentRange cs cr) {c : Char} (hdigit : c.isDigit = false)
    (hc : c ≠ '-' ∧ c ≠ '/' ∧ c ≠ '*') : c ∉ cs.drop 6 := by
  obtain ⟨⟨s, e, t, rfl, hs, he, ht⟩, -⟩ := h
  have hdec : ∀ {ds : List Char} {n : ℕ}, Decimal ds n → c ∉ ds := by
    intro ds n hds hmem
    rw [hds.digits c hmem] at hdigit
    cases hdigit
  have htotal : c ∉ t := by
    rcases ht with ⟨-, rfl⟩ | ⟨n, -, hn⟩
    · rw [List.mem_singleton]
      exact hc.2.2
    · exact hdec hn
  have hdrop : ("bytes ".toList ++ (s ++ '-' :: e) ++ '/' :: t).drop 6 =
      (s ++ '-' :: e) ++ '/' :: t := rfl
  rw [hdrop]
  simp only [List.mem_append, List.mem_cons, not_or]
  exact ⟨⟨hdec hs, hc.1, hdec he⟩, hc.2.1, htotal⟩

/-- **Blanks around the numbers are accepted, though not in the strict
grammar.** -/
theorem content_range_padded :
    parseContentRange "bytes 1 - 2/3" = .ok { start := 1, stop := 2, total := some 3 } ∧
      ∀ cr, ¬ StrictContentRange "bytes 1 - 2/3".toList cr := by
  refine ⟨by decide +kernel, fun cr h => ?_⟩
  have hblank : ' ' ∉ "bytes 1 - 2/3".toList.drop 6 := h.not_mem (by decide) (by decide)
  exact hblank (by decide)

end KDown
