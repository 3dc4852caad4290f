/-
KDown/ContentDisposition.lean

File names in `Content-Disposition` (`disposition_filename_candidates` in
http/probe.rs).

The parameters behind the disposition type are split at semicolons outside
quotes, by a small machine that keeps every character of a parameter
(`Passes`).  A `filename` is a quoted string or a bare token, a `filename*` is
percent-encoded; of each the first well-formed, non-empty occurrence counts, and
the extended one is preferred.

* `splitDispositionParameters_join`: parameters are split where they were joined.
* `content_disposition_round_trip`: both encodings of a name are read back,
  whatever other parameters stand around them.
-/
import KDown.PercentEncoding
import KDown.TextScan

namespace KDown

/-! ### The parser -/

/-- The state of the splitter: the finished parameters and the current one. -/
structure SplitState where
  parts : List (List Char)
  current : List Char
  inQuotes : Bool
  escaped : Bool

/-- One character.  The backslash of an escape is kept for the value parser. -/
def SplitState.step (s : SplitState) (c : Char) : SplitState :=
  if s.escaped = true then { s with current := s.current ++ ['\\', c], escaped := false }
  else if c = '\\' ∧ s.inQuotes = true then { s with escaped := true }
  else if c = '"' then { s with current := s.current ++ [c], inQuotes := !s.inQuotes }
  else if c = ';' ∧ s.inQuotes = false then
    { s with parts := s.parts ++ [s.current], current := [] }
  else { s with current := s.current ++ [c] }

/-- Split a parameter list at the semicolons outside quotes. -/
def splitDispositionParameters (parameters : List Char) : List (List Char) :=
  let s := parameters.foldl SplitState.step
    { parts := [], current := [], inQuotes := false, escaped := false }
  s.parts ++ [s.current]

/-- What follows the opening quote.  Only a quote and a backslash are unescaped,
and only blanks may follow the closing quote. -/
def unquote : List Char → Option (List Char)
  | [] => none
  | c :: rest =>
      if c = '\\' then
        match rest with
        | [] => none
        | d :: rest =>
            (unquote rest).map fun out =>
              if d = '"' ∨ d = '\\' then d :: out else '\\' :: d :: out
      else if c = '"' then if rest.all isUnicodeWhitespace then some [] else none
      else (unquote rest).map (c :: ·)

/-- A quoted string, or a bare token taken literally. -/
def parsePlainValue (value : List Char) : Option (List Char) :=
  if value.head? = some '"' then unquote value.tail else some value

/-- The name, up to case. -/
def isNamed (name : List Char) (word : String) : Bool :=
  eqIgnoreAsciiCase (String.ofList name) word

/-- A character set, a language and a percent-encoded text, between
apostrophes. -/
def parseExtendedValue (value : List Char) : Option (List Char) :=
  (splitOnce '\'' value).bind fun p =>
    (splitOnce '\'' p.2).bind fun q =>
      if isNamed p.1 "utf-8" || isNamed p.1 "utf8" then
        (percentDecodeStrict (utf8Bytes q.2)).bind fromUtf8
      else none

/-- What was found so far. -/
structure FilenameCandidates where
  extended : Option (List Char)
  plain : Option (List Char)

namespace FilenameCandidates

/-- One parameter.  A malformed or empty value leaves the place open. -/
def consider (found : FilenameCandidates) (parameter : List Char) : FilenameCandidates :=
  match splitOnce '=' parameter with
  | none => found
  | some (rawName, rawValue) =>
      if isNamed (trim rawName) "filename*" && found.extended.isNone then
        { found with
          extended := (parseExtendedValue (trim rawValue)).filter fun v => !v.isEmpty }
      else if isNamed (trim rawName) "filename" && found.plain.isNone then
        { found with plain := (parsePlainValue (trim rawValue)).filter fun v => !v.isEmpty }
      else found

/-- The parameters in order, until both are found. -/
def scan (found : FilenameCandidates) : List (List Char) → FilenameCandidates
  | [] => found
  | parameter :: rest =>
      let found := found.consider parameter
      if found.extended.isSome && found.plain.isSome then found else found.scan rest

end FilenameCandidates

/-- The preferred candidate and the plain one. -/
def dispositionFilenameCandidates (cd : Option (List Char)) :
    Option (List Char) × Option (List Char) :=
  match cd.bind (splitOnce ';') with
  | none => (none, none)
  | some (_, parameters) =>
      let found := FilenameCandidates.scan { extended := none, plain := none }
        (splitDispositionParameters parameters)
      (found.extended <|> found.plain, found.plain)

/-! ### Well-formed headers -/

/-- Between the quotes of a quoted string: characters and quoted pairs. -/
inductive QuotedContent : List Char → Prop
  | nil : QuotedContent []
  | plain {c cs} : c ≠ '"' → c ≠ '\\' → QuotedContent cs → QuotedContent (c :: cs)
  | pair {c cs} : QuotedContent cs → QuotedContent ('\\' :: c :: cs)

/-- A parameter's value: a token, here any text without the two marks of the
splitter, or a quoted string. -/
inductive ValueText : List Char → Prop
  | token {cs} : (∀ c ∈ cs, c ≠ ';' ∧ c ≠ '"') → ValueText cs
  | quoted {cs} : QuotedContent cs → ValueText ('"' :: (cs ++ ['"']))

/-- A parameter without its value: the name, and blanks around the value. -/
structure ParameterSlot where
  name : List Char
  left : List Char
  right : List Char
  nameForm : ∀ c ∈ name, c ≠ ';' ∧ c ≠ '"' ∧ c ≠ '='
  leftBlank : ∀ c ∈ left, isUnicodeWhitespace c = true
  rightBlank : ∀ c ∈ right, isUnicodeWhitespace c = true

/-- A parameter around its value. -/
def ParameterSlot.text (slot : ParameterSlot) (value : List Char) : List Char :=
  slot.name ++ '=' :: (slot.left ++ value ++ slot.right)

/-- A well-formed parameter with another name. -/
structure OtherParameter extends ParameterSlot where
  value : List Char
  valueForm : ValueText value
  notFilename : isNamed (trim name) "filename" = false
  notExtended : isNamed (trim name) "filename*" = false

/-- Another parameter as it is written. -/
def OtherParameter.text (p : OtherParameter) : List Char := p.toParameterSlot.text p.value

/-- The place of one of the two file name parameters. -/
structure NamedSlot (word : String) extends ParameterSlot where
  named : isNamed (trim name) word = true

/-- The disposition type and the parameters. -/
def dispositionHeader (type : List Char) (parameters : List (List Char)) : List Char :=
  type ++ ';' :: List.intercalate [';'] parameters

/-- The quoted-string encoding of a name. -/
def quoteText (name : List Char) : List Char :=
  '"' :: (name.flatMap escapeChar ++ ['"'])
where
  escapeChar (c : Char) : List Char := if c = '"' ∨ c = '\\' then ['\\', c] else [c]

/-- The characters that stand for themselves in an extended value. -/
def attrChar (c : Char) : Bool :=
  c.isAlphanum || "!#$&+-.^_`|~".toList.contains c

/-- The extended encoding of a name. -/
def extendedText (language name : List Char) : List Char :=
  "UTF-8'".toList ++ (language ++ '\'' :: encodeText attrChar name)

/-! ### Splitting -/

/-- The splitter takes the text into the current parameter. -/
def Passes (cs : List Char) : Prop :=
  ∀ parts current, cs.foldl SplitState.step ⟨parts, current, false, false⟩ =
    ⟨parts, current ++ cs, false, false⟩

theorem Passes.append {a b : List Char} (ha : Passes a) (hb : Passes b) : Passes (a ++ b) := by
  intro parts current
  rw [List.foldl_append, ha, hb, List.append_assoc]

theorem passes_of_forall {cs : List Char} (h : ∀ c ∈ cs, c ≠ ';' ∧ c ≠ '"') : Passes cs := by
  induction cs with
  | nil =>
    intro parts current
    rw [List.append_nil]
    rfl
  | cons c cs ih =>
    intro parts current
    obtain ⟨hsemi, hquote⟩ := h c List.mem_cons_self
    have hstep : SplitState.step ⟨parts, current, false, false⟩ c =
        ⟨parts, current ++ [c], false, false⟩ := by
      simp [SplitState.step, hsemi, hquote]
    rw [List.foldl_cons, hstep, ih fun x hx => h x (List.mem_cons_of_mem _ hx), List.append_assoc,
      List.singleton_append]

/-- Inside quotes everything is taken, escapes in two steps. -/
theorem QuotedContent.foldl {cs : List Char} (h : QuotedContent cs) (parts : List (List Char))
    (current : List Char) : cs.foldl SplitState.step ⟨parts, current, true, false⟩ =
      ⟨parts, current ++ cs, true, false⟩ := by
  induction h generalizing current with
  | nil =>
    rw [List.append_nil]
    rfl
  | @plain c cs hquote hescape _ ih =>
    have hstep : SplitState.step ⟨parts, current, true, false⟩ c =
        ⟨parts, current ++ [c], true, false⟩ := by
      simp [SplitState.step, hquote, hescape]
    rw [List.foldl_cons, hstep, ih, List.append_assoc, List.singleton_append]
  | @pair c cs _ ih =>
    have hstep : SplitState.step (SplitState.step ⟨parts, current, true, false⟩ '\\') c =
        ⟨parts, current ++ ['\\', c], true, false⟩ := by
      simp [SplitState.step]
    rw [List.foldl_cons, List.foldl_cons, hstep, ih, List.append_assoc]
    rfl

theorem ValueText.passes {cs : List Char} (h : ValueText cs) : Passes cs := by
  cases h with
  | token h => exact passes_of_forall h
  | @quoted cs h =>
    intro parts current
    have hopen : SplitState.step ⟨parts, current, false, false⟩ '"' =
        ⟨parts, current ++ ['"'], true, false⟩ := rfl
    have hclose : SplitState.step ⟨parts, current ++ ['"'] ++ cs, true, false⟩ '"' =
        ⟨parts, current ++ ['"'] ++ cs ++ ['"'], false, false⟩ := rfl
    rw [List.foldl_cons, hopen, List.foldl_append, h.foldl, List.foldl_cons, hclose]
    simp

theorem blank_not_mark {c : Char} (h : isUnicodeWhitespace c = true) : c ≠ ';' ∧ c ≠ '"' := by
  constructor
  · rintro rfl
    cases h
  · rintro rfl
    cases h

theorem ParameterSlot.passes (slot : ParameterSlot) {value : List Char} (h : Passes value) :
    Passes (slot.text value) := by
  have hname : Passes (slot.name ++ ['=']) := by
    refine passes_of_forall fun c hc => ?_
    rcases List.mem_append.mp hc with hc | hc
    · exact ⟨(slot.nameForm c hc).1, (slot.nameForm c hc).2.1⟩
    · rw [List.mem_singleton.mp hc]
      decide
  have hleft : Passes slot.left :=
    passes_of_forall fun c hc => blank_not_mark (slot.leftBlank c hc)
  have hright : Passes slot.right :=
    passes_of_forall fun c hc => blank_not_mark (slot.rightBlank c hc)
  have htext : slot.text value = slot.name ++ ['='] ++ (slot.left ++ value ++ slot.right) := by
    simp [ParameterSlot.text]
  rw [htext]
  exact hname.append ((hleft.append h).append hright)

/-- **Parameters are split where they were joined.** -/
theorem splitDispositionParameters_join {p : List Char} {ps : List (List Char)}
    (h : ∀ x ∈ p :: ps, Passes x) :
    splitDispositionParameters (List.intercalate [';'] (p :: ps)) = p :: ps := by
  -- induction on the parameters behind the first; `parts` are the finished ones
  have hrun : ∀ (ps : List (List Char)) (p : List Char) (parts : List (List Char)),
      (∀ x ∈ p :: ps, Passes x) →
      let s := (List.intercalate [';'] (p :: ps)).foldl SplitState.step ⟨parts, [], false, false⟩
      s.parts ++ [s.current] = parts ++ p :: ps := by
    intro ps
    induction ps with
    | nil =>
      intro p parts hpass
      rw [List.intercalate_singleton, hpass p List.mem_cons_self, List.nil_append]
    | cons q ps ih =>
      intro p parts hpass
      have hsemi : SplitState.step ⟨parts, p, false, false⟩ ';' =
          ⟨parts ++ [p], [], false, false⟩ := rfl
      have hrest := ih q (parts ++ [p]) fun x hx => hpass x (List.mem_cons_of_mem _ hx)
      rw [List.intercalate_cons_cons, List.append_assoc, List.foldl_append,
        hpass p List.mem_cons_self, List.nil_append, List.singleton_append, List.foldl_cons, hsemi]
      rw [List.append_assoc, List.singleton_append] at hrest
      exact hrest
  have hall := hrun ps p [] h
  rw [List.nil_append] at hall
  exact hall

/-! ### Values -/

theorem quotedContent_escape (name : List Char) :
    QuotedContent (name.flatMap quoteText.escapeChar) := by
  induction name with
  | nil => exact .nil
  | cons c name ih =>
    rw [List.flatMap_cons, quoteText.escapeChar]
    split_ifs with h
    · exact .pair ih
    · rw [not_or] at h
      exact .plain h.1 h.2 ih

theorem valueText_quoteText (name : List Char) : ValueText (quoteText name) :=
  .quoted (quotedContent_escape name)

/-- Unescaping is the inverse of escaping. -/
theorem unquote_escape (name : List Char) :
    unquote (name.flatMap quoteText.escapeChar ++ ['"']) = some name := by
  induction name with
  | nil => rfl
  | cons c name ih =>
    rw [List.flatMap_cons, quoteText.escapeChar, List.append_assoc]
    split_ifs with h
    · show unquote ('\\' :: c :: (name.flatMap quoteText.escapeChar ++ ['"'])) = _
      rw [unquote, if_pos rfl]
      simp only [ih, Option.map_some, h, if_true]
    · rw [not_or] at h
      show unquote (c :: (name.flatMap quoteText.escapeChar ++ ['"'])) = _
      rw [unquote.eq_def]
      simp only [h.1, h.2, if_false, ih, Option.map_some]

theorem parsePlainValue_quoteText (name : List Char) :
    parsePlainValue (quoteText name) = some name := by
  rw [parsePlainValue, quoteText, List.head?_cons, if_pos rfl, List.tail_cons, unquote_escape]

theorem attrChar_not_mark : ∀ c ∈ ['%', ';', '"', '\''], attrChar c = false :=
  forall_mem_of_all (by decide)

theorem not_isUnicodeWhitespace_of_visible {c : Char} (h : 0x20 < c.toNat ∧ c.toNat < 0x7f) :
    isUnicodeWhitespace c = false := by
  simp only [isUnicodeWhitespace, Bool.or_eq_false_iff, Bool.and_eq_false_iff,
    decide_eq_false_iff_not]
  omega

theorem visible_of_range {c : Char} {lo hi : UInt32}
    (h : (decide (lo ≤ c.val) && decide (c.val ≤ hi)) = true)
    (hlo : 0x20 < lo.toNat) (hhi : hi.toNat < 0x7f) : 0x20 < c.toNat ∧ c.toNat < 0x7f := by
  rw [Bool.and_eq_true, decide_eq_true_eq, decide_eq_true_eq, UInt32.le_iff_toNat_le,
    UInt32.le_iff_toNat_le] at h
  exact ⟨lt_of_lt_of_le hlo h.1, lt_of_le_of_lt h.2 hhi⟩

theorem isAlphanum_visible {c : Char} (h : c.isAlphanum = true) :
    0x20 < c.toNat ∧ c.toNat < 0x7f := by
  rcases (Bool.or_eq_true _ _).mp h with h | hdigit
  · rcases (Bool.or_eq_true _ _).mp h with hupper | hlower
    · have hrange : (decide ('A'.val ≤ c.val) && decide (c.val ≤ 'Z'.val)) = true := by
        rw [← Bool.decide_and]
        exact hupper
      exact visible_of_range hrange (by decide) (by decide)
    · exact visible_of_range hlower (by decide) (by decide)
  · exact visible_of_range hdigit (by decide) (by decide)

theorem attrChar_visible {c : Char} (h : attrChar c = true) : 0x20 < c.toNat ∧ c.toNat < 0x7f := by
  rw [attrChar, Bool.or_eq_true, List.contains_iff_mem] at h
  rcases h with h | h
  · exact isAlphanum_visible h
  · have hall : ∀ c ∈ "!#$&+-.^_`|~".toList, 0x20 < c.toNat ∧ c.toNat < 0x7f :=
      forall_mem_of_all (by decide)
    exact hall c h

/-- A language tag: letters, digits and hyphens, or nothing. -/
def LanguageTag (language : List Char) : Prop := ∀ c ∈ language, c.isAlphanum = true ∨ c = '-'

/-- No mark of the parser and no blank occurs in an encoded text. -/
theorem encodeText_free {name : List Char} {c : Char} (h : c ∈ encodeText attrChar name) :
    c ≠ ';' ∧ c ≠ '"' ∧ isUnicodeWhitespace c = false := by
  have hkinds : attrChar c = true ∨ c = '%' := by
    rcases mem_encodeBytes h with h | h | h
    · exact .inl h
    · exact .inr h
    · exact .inl (by rw [attrChar, h]; rfl)
  rcases hkinds with hattr | rfl
  · refine ⟨?_, ?_, not_isUnicodeWhitespace_of_visible (attrChar_visible hattr)⟩
    · rintro rfl
      cases hattr
    · rintro rfl
      cases hattr
  · decide

/-- An extended value needs no quotes: it has no separators in it. -/
theorem extendedText_free {language name : List Char} (hlanguage : LanguageTag language) {c : Char}
    (h : c ∈ extendedText language name) :
    c ≠ ';' ∧ c ≠ '"' ∧ isUnicodeWhitespace c = false := by
  rcases List.mem_append.mp h with h | h
  · have hall : ∀ c ∈ "UTF-8'".toList, c ≠ ';' ∧ c ≠ '"' ∧ isUnicodeWhitespace c = false :=
      forall_mem_of_all (by decide)
    exact hall c h
  · rcases List.mem_append.mp h with h | h
    · rcases hlanguage c h with hc | rfl
      · refine ⟨?_, ?_, not_isUnicodeWhitespace_of_visible (isAlphanum_visible hc)⟩
        · rintro rfl
          cases hc
        · rintro rfl
          cases hc
      · decide
    · rcases List.mem_cons.mp h with rfl | h
      · decide
      · exact encodeText_free h

/-- The extended encoding is read back. -/
theorem parseExtendedValue_extendedText {language : List Char} (hlanguage : LanguageTag language)
    (name : List Char) : parseExtendedValue (extendedText language name) = some name := by
  have hcharset : '\'' ∉ "UTF-8".toList := by decide
  have hquote : '\'' ∉ language := by
    intro hmem
    rcases hlanguage _ hmem with h | h <;> cases h
  have hsplit : splitOnce '\'' (extendedText language name) =
      some ("UTF-8".toList, language ++ '\'' :: encodeText attrChar name) :=
    splitOnce_append hcharset _
  have hutf8 : (isNamed "UTF-8".toList "utf-8" || isNamed "UTF-8".toList "utf8") = true := by
    decide
  rw [parseExtendedValue, hsplit, Option.bind_some, splitOnce_append hquote, Option.bind_some,
    if_pos hutf8, decodeText_encodeText (attrChar_not_mark '%' (by decide))]

/-! ### Parameters -/

/-- A value is trimmed out of its blanks. -/
theorem ParameterSlot.splitOnce_text (slot : ParameterSlot) (value : List Char) :
    splitOnce '=' (slot.text value) = some (slot.name, slot.left ++ value ++ slot.right) :=
  splitOnce_append (fun h => (slot.nameForm _ h).2.2 rfl) _

theorem ParameterSlot.trim_value (slot : ParameterSlot) {value : List Char}
    (h : Tight isUnicodeWhitespace value) : trim (slot.left ++ value ++ slot.right) = value :=
  trimWith_pad slot.leftBlank h slot.rightBlank

theorem tight_quoteText (name : List Char) : Tight isUnicodeWhitespace (quoteText name) := by
  constructor
  · rintro c ⟨⟩
    decide
  · intro c hc
    rw [quoteText, ← List.cons_append, List.getLast?_concat] at hc
    cases hc
    decide

namespace FilenameCandidates

theorem consider_other (found : FilenameCandidates) (p : OtherParameter) :
    found.consider p.text = found := by
  rw [consider, OtherParameter.text, p.splitOnce_text]
  simp only [p.notExtended, p.notFilename, Bool.false_and, Bool.false_eq_true, if_false]

/-- Other parameters are passed over. -/
theorem scan_others (others : List OtherParameter) (found : FilenameCandidates)
    (rest : List (List Char)) (hopen : found.extended = none ∨ found.plain = none) :
    found.scan (others.map OtherParameter.text ++ rest) = found.scan rest := by
  induction others with
  | nil => rfl
  | cons p others ih =>
    have hnot : (found.extended.isSome && found.plain.isSome) = false := by
      rcases hopen with h | h
      · rw [h]
        rfl
      · rw [h, Option.isSome_none, Bool.and_false]
    rw [List.map_cons, List.cons_append, scan]
    simp only [consider_other, hnot, Bool.false_eq_true, if_false]
    exact ih

/-- At the end other parameters change nothing. -/
theorem scan_only_others (others : List OtherParameter) (found : FilenameCandidates) :
    found.scan (others.map OtherParameter.text) = found := by
  induction others with
  | nil => rfl
  | cons p others ih =>
    rw [List.map_cons, scan]
    simp only [consider_other, ih, ite_self]

theorem isNamed_exclusive {name : List Char} (h : isNamed name "filename" = true) :
    isNamed name "filename*" = false := by
  simp only [isNamed, eqIgnoreAsciiCase, decide_eq_true_eq] at h
  simp only [isNamed, eqIgnoreAsciiCase, decide_eq_false_iff_not]
  rw [h]
  decide

/-- The plain name is taken up. -/
theorem consider_plain (slot : NamedSlot "filename") {name : List Char} (hname : name ≠ [])
    (found : FilenameCandidates) (hopen : found.plain = none) :
    found.consider (slot.text (quoteText name)) = { found with plain := some name } := by
  have hempty : (!name.isEmpty) = true := by
    rw [Bool.not_eq_true', List.isEmpty_eq_false_iff]
    exact hname
  rw [consider, slot.splitOnce_text]
  simp only [slot.trim_value (tight_quoteText name), isNamed_exclusive slot.named, slot.named, hopen,
    parsePlainValue_quoteText, Bool.false_and, Bool.false_eq_true, if_false, Option.isNone_none,
    Bool.and_self, if_true, Option.filter_some, hempty]

/-- The extended name is taken up. -/
theorem consider_extended (slot : NamedSlot "filename*") {language name : List Char}
    (hlanguage : LanguageTag language) (hname : name ≠ []) (found : FilenameCandidates)
    (hopen : found.extended = none) :
    found.consider (slot.text (extendedText language name)) =
      { found with extended := some name } := by
  have hempty : (!name.isEmpty) = true := by
    rw [Bool.not_eq_true', List.isEmpty_eq_false_iff]
    exact hname
  have htight : Tight isUnicodeWhitespace (extendedText language name) :=
    tight_of_forall fun c hc => (extendedText_free hlanguage hc).2.2
  rw [consider, slot.splitOnce_text]
  simp only [slot.trim_value htight, slot.named, hopen, parseExtendedValue_extendedText hlanguage,
    Option.isNone_none, Bool.and_self, if_true, Option.filter_some, hempty]

end FilenameCandidates

theorem NamedSlot.passes_quoteText (slot : NamedSlot "filename") (name : List Char) :
    Passes (slot.text (quoteText name)) := slot.passes (valueText_quoteText name).passes

theorem NamedSlot.passes_extendedText (slot : NamedSlot "filename*") {language : List Char}
    (hlanguage : LanguageTag language) (name : List Char) :
    Passes (slot.text (extendedText language name)) :=
  slot.passes (passes_of_forall fun _ hc =>
    ⟨(extendedText_free hlanguage hc).1, (extendedText_free hlanguage hc).2.1⟩)

theorem passes_others {others : List OtherParameter} {x : List Char}
    (h : x ∈ others.map OtherParameter.text) : Passes x := by
  obtain ⟨p, -, rfl⟩ := List.mem_map.mp h
  exact p.passes p.valueForm.passes

/-- What is found in a header is what is found in its parameters. -/
theorem dispositionFilenameCandidates_header {type : List Char} (htype : ';' ∉ type)
    {parameters : List (List Char)} (hne : parameters ≠ []) (hpass : ∀ x ∈ parameters, Passes x) :
    dispositionFilenameCandidates (some (dispositionHeader type parameters)) =
      let found := FilenameCandidates.scan { extended := none, plain := none } parameters
      (found.extended <|> found.plain, found.plain) := by
  rcases parameters with - | ⟨p, ps⟩
  · exact absurd rfl hne
  · rw [dispositionFilenameCandidates, Option.bind_some, dispositionHeader,
      splitOnce_append htype]
    simp only [splitDispositionParameters_join hpass]

/-- **Content-Disposition round trip.**  Whatever well-formed parameters with
other names stand around it, a non-empty name is read back from its
quoted-string encoding and from its extended encoding; when both are present, in
either order, the extended one is preferred. -/
theorem content_disposition_round_trip {type name language : List Char} (htype : ';' ∉ type)
    (hname : name ≠ []) (hlanguage : LanguageTag language)
    (before between after : List OtherParameter) (plainSlot : NamedSlot "filename")
    (extendedSlot : NamedSlot "filename*") :
    dispositionFilenameCandidates (some (dispositionHeader type
        (before.map OtherParameter.text ++
          plainSlot.text (quoteText name) :: after.map OtherParameter.text))) =
        (some name, some name) ∧
      dispositionFilenameCandidates (some (dispositionHeader type
        (before.map OtherParameter.text ++
          extendedSlot.text (extendedText language name) :: after.map OtherParameter.text))) =
        (some name, none) ∧
      ∀ plain : List Char, plain ≠ [] →
        dispositionFilenameCandidates (some (dispositionHeader type
          (before.map OtherParameter.text ++ plainSlot.text (quoteText plain) ::
            (between.map OtherParameter.text ++ extendedSlot.text (extendedText language name) ::
              after.map OtherParameter.text)))) = (some name, some plain) ∧
        dispositionFilenameCandidates (some (dispositionHeader type
          (before.map OtherParameter.text ++ extendedSlot.text (extendedText language name) ::
            (between.map OtherParameter.text ++ plainSlot.text (quoteText plain) ::
              after.map OtherParameter.text)))) = (some name, some plain) := by
  have hplainPasses : ∀ plain, Passes (plainSlot.text (quoteText plain)) :=
    plainSlot.passes_quoteText
  have hextendedPasses : Passes (extendedSlot.text (extendedText language name)) :=
    extendedSlot.passes_extendedText hlanguage name
  -- a list of parameters passes when its two special ones do
  have hpass : ∀ {others : List OtherParameter} {p : List Char} {rest : List (List Char)},
      Passes p → (∀ x ∈ rest, Passes x) →
      ∀ x ∈ others.map OtherParameter.text ++ p :: rest, Passes x := by
    intro others p rest hp hrest x hx
    rcases List.mem_append.mp hx with hx | hx
    · exact passes_others hx
    · rcases List.mem_cons.mp hx with rfl | hx
      · exact hp
      · exact hrest x hx
  have hafter : ∀ x ∈ after.map OtherParameter.text, Passes x := fun x => passes_others
  refine ⟨?_, ?_, fun plain hplain => ⟨?_, ?_⟩⟩
  · rw [dispositionFilenameCandidates_header htype (by simp) (hpass (hplainPasses name) hafter),
      FilenameCandidates.scan_others before _ _ (.inl rfl), FilenameCandidates.scan]
    simp only [FilenameCandidates.consider_plain plainSlot hname ⟨none, none⟩ rfl]
    simp [FilenameCandidates.scan_only_others]
  · rw [dispositionFilenameCandidates_header htype (by simp) (hpass hextendedPasses hafter),
      FilenameCandidates.scan_others before _ _ (.inl rfl), FilenameCandidates.scan]
    simp only [FilenameCandidates.consider_extended extendedSlot hlanguage hname ⟨none, none⟩ rfl]
    simp [FilenameCandidates.scan_only_others]
  · rw [dispositionFilenameCandidates_header htype (by simp)
        (hpass (hplainPasses plain) (hpass hextendedPasses hafter)),
      FilenameCandidates.scan_others before _ _ (.inl rfl), FilenameCandidates.scan]
    simp only [FilenameCandidates.consider_plain plainSlot hplain ⟨none, none⟩ rfl,
      Option.isSome_none, Bool.false_and, Bool.false_eq_true, if_false]
    rw [FilenameCandidates.scan_others between _ _ (.inl rfl), FilenameCandidates.scan]
    simp only [FilenameCandidates.consider_extended extendedSlot hlanguage hname
      ⟨none, some plain⟩ rfl]
    rfl
  · rw [dispositionFilenameCandidates_header htype (by simp)
        (hpass hextendedPasses (hpass (hplainPasses plain) hafter)),
      FilenameCandidates.scan_others before _ _ (.inl rfl), FilenameCandidates.scan]
    simp only [FilenameCandidates.consider_extended extendedSlot hlanguage hname ⟨none, none⟩ rfl,
      Option.isSome_none, Bool.and_false, Bool.false_eq_true, if_false]
    rw [FilenameCandidates.scan_others between _ _ (.inr rfl), FilenameCandidates.scan]
    simp only [FilenameCandidates.consider_plain plainSlot hplain ⟨some name, none⟩ rfl]
    rfl

/-- ` name="a;b=\"c"`, a parameter with all the marks in its value. -/
def trickyParameter : OtherParameter where
  name := " name".toList
  left := []
  right := []
  nameForm := forall_mem_of_all (by decide)
  leftBlank := by simp
  rightBlank := by simp
  value := '"' :: (['a', ';', 'b', '=', '\\', '"', 'c'] ++ ['"'])
  valueForm :=
    .quoted (.plain (by decide) (by decide) (.plain (by decide) (by decide)
      (.plain (by decide) (by decide) (.plain (by decide) (by decide)
        (.pair (.plain (by decide) (by decide) .nil))))))
  notFilename := by decide
  notExtended := by decide

/-- A parameter `filename` with a blank on each side. -/
def filenameSlot : NamedSlot "filename" where
  name := " FileName".toList
  left := [' ']
  right := []
  nameForm := forall_mem_of_all (by decide)
  leftBlank := forall_mem_of_all (by decide)
  rightBlank := by simp
  named := by decide

/-- A parameter `filename*`. -/
def extendedSlot : NamedSlot "filename*" where
  name := " filename*".toList
  left := []
  right := []
  nameForm := forall_mem_of_all (by decide)
  leftBlank := by simp
  rightBlank := by simp
  named := by decide

/-- `attachment; name="a;b=\"c"; FileName= "x\"y"; filename*=UTF-8'en'%C3%A9`. -/
theorem content_disposition_round_trip_tricky :
    dispositionFilenameCandidates (some (dispositionHeader "attachment".toList
      ([trickyParameter].map OtherParameter.text ++ filenameSlot.text (quoteText "x\"y".toList) ::
        ([].map OtherParameter.text ++ extendedSlot.text (extendedText "en".toList "é".toList) ::
          [].map OtherParameter.text)))) = (some "é".toList, some "x\"y".toList) :=
  have hlanguage : LanguageTag "en".toList := fun c hc => by
    have hall : ∀ c ∈ "en".toList, c.isAlphanum = true ∨ c = '-' :=
      forall_mem_of_all (by decide)
    exact hall c hc
  ((content_disposition_round_trip (by decide) (by decide) hlanguage [trickyParameter] [] []
    filenameSlot extendedSlot).2.2 "x\"y".toList (by decide)).1

end KDown
