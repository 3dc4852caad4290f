/-
KDown/RenameCandidates.lean

The candidates of automatic renaming (`rename_candidate_names` in
job/naming.rs): the base name as it is, then `stem (1).ext` to `stem (999).ext`,
each with the stem cut to the byte cap and sanitized.

Behind the sanitizer a sibling still has the shape `front (n` `)` `tail`, where
the tail comes from the extension alone (`sanitize_numbered`): only an
underscore in front of a device name can push a byte over the cap, and that byte
is the closing parenthesis.  The number can therefore be read back
(`numbered_inj`).  Two bases escape this.  A backslash in the extension makes the
sanitizer select what stands behind it, so the number is lost (`HidesNumber`);
and a base that already ends in its own number and fills the cap is cut to
itself (`NumberedBase`).

* `rename_candidates_distinct_iff`: the candidates are distinct and keep their
  numbers, except for these two kinds of base.
-/
import KDown.FileStore
import KDown.PercentEncoding
import KDown.SanitizeFilename

namespace KDown

open JsonText (size size_nil size_cons size_append)

/-! ### Operating system strings -/

/-- How many bytes a lead byte asks for, and the bounds of the second. -/
def utf8Lead (lead : UInt8) : Option (ℕ × UInt8 × UInt8) :=
  if 0xC2 ≤ lead ∧ lead ≤ 0xDF then some (2, 0x80, 0xBF)
  else if lead = 0xE0 then some (3, 0xA0, 0xBF)
  else if lead = 0xED then some (3, 0x80, 0x9F)
  else if 0xE1 ≤ lead ∧ lead ≤ 0xEF then some (3, 0x80, 0xBF)
  else if lead = 0xF0 then some (4, 0x90, 0xBF)
  else if 0xF1 ≤ lead ∧ lead ≤ 0xF3 then some (4, 0x80, 0xBF)
  else if lead = 0xF4 then some (4, 0x80, 0x8F)
  else none

/-- How many bytes behind a lead byte still continue it. -/
def utf8Continued (lead : UInt8) (rest : List UInt8) : ℕ :=
  match utf8Lead lead, rest with
  | some (len, low, high), second :: rest =>
    if low ≤ second ∧ second ≤ high then
      1 + min (len - 2) (rest.takeWhile fun b => 0x80 ≤ b && b ≤ 0xBF).length
    else 0
  | _, _ => 0

/-- Each ill-formed beginning of a character becomes a replacement character. -/
def lossyChunks : ℕ → List UInt8 → List Char
  | fuel + 1, lead :: rest =>
    let len := utf8Continued lead rest
    (fromUtf8 (lead :: rest.take len)).getD [Char.ofNat 0xFFFD] ++ lossyChunks fuel (rest.drop len)
  | _, _ => []

/-- `OsStr::to_string_lossy`. -/
def toStringLossy (os : List UInt8) : List Char :=
  (fromUtf8 os).getD (lossyChunks os.length os)

theorem toStringLossy_utf8Bytes (cs : List Char) : toStringLossy (utf8Bytes cs) = cs := by
  rw [toStringLossy, fromUtf8_utf8Bytes, Option.getD_some]

theorem utf8Bytes_inj {a b : List Char} (h : utf8Bytes a = utf8Bytes b) : a = b := by
  rw [← toStringLossy_utf8Bytes a, h, toStringLossy_utf8Bytes]

theorem length_utf8Bytes (cs : List Char) : (utf8Bytes cs).length = size cs := by
  induction cs with
  | nil => rfl
  | cons c cs ih =>
    rw [utf8Bytes, List.flatMap_cons, List.length_append, String.length_utf8EncodeChar, size_cons,
      ← ih, Nat.add_comm, utf8Bytes]

/-- What `Path::file_name` yields: bytes whose text is one component. -/
structure BaseFileName where
  os : List UInt8
  single : pathComponents (toStringLossy os) = [.normal (toStringLossy os)]

namespace BaseFileName

/-- The name as text. -/
def text (base : BaseFileName) : List Char := toStringLossy base.os

/-- The stem, or the whole name. -/
def stem (base : BaseFileName) : List Char := (pathFileStem base.text).getD base.text

/-- The extension with its dot. -/
def ext (base : BaseFileName) : List Char :=
  match pathExtension base.text with
  | some e => '.' :: e
  | none => []

end BaseFileName

/-! ### The candidates -/

/-- The last number that is tried. -/
def renameMaxSuffix : ℕ := 999

/-- A number behind its opening parenthesis. -/
def numberText (n : ℕ) : List Char := ' ' :: '(' :: Nat.toDigits 10 n

/-- A number in its parentheses. -/
def renameSuffix (n : ℕ) : List Char := numberText n ++ [')']

/-- One generated sibling.  The suffix and the extension are kept; the stem is
cut. -/
def renameSibling (stem ext : List Char) (cap n : ℕ) : Option (List Char) :=
  let stemBudget := cap - size (renameSuffix n) - size ext
  if stemBudget = 0 then none
  else
    let cut := takeBytes (min stemBudget (size stem)) stem
    if cut = [] then none
    else trySanitizeFilename (cut ++ renameSuffix n ++ ext) cap

/-- The base, then the siblings by number. -/
def renameCandidateNames (base : BaseFileName) (cap : ℕ) : List (Option (List UInt8)) :=
  some base.os :: (List.range' 1 renameMaxSuffix).map fun n =>
    (renameSibling base.stem base.ext cap n).map utf8Bytes

/-- Every name is tried once, and a sibling can be told by its number. -/
structure DistinctNumbered (base : BaseFileName) (cap : ℕ) : Prop where
  distinct : (renameCandidateNames base cap).reduceOption.Nodup
  numbered : ∀ n name, 0 < n → (renameCandidateNames base cap)[n]? = some (some name) →
    name.length ≤ cap ∧ ∃ text, name = utf8Bytes text ∧ pathComponents text = [.normal text] ∧
      numberText n <:+: text

/-- The part of an extension behind its first separator. -/
def behindSeparator (ext : List Char) : List Char :=
  (ext.dropWhile fun c => !isPathSeparator c).tail

/-- There is room for a sibling, and the sanitizer selects a part of the
extension instead of it. -/
def HidesNumber (base : BaseFileName) (cap : ℕ) : Prop :=
  (cleanName (behindSeparator base.ext)).isSome = true ∧
    takeBytes (cap - size (renameSuffix 1) - size base.ext) base.stem ≠ []

/-- The base is clean, fills the cap, and its stem ends in one of the numbers. -/
def NumberedBase (base : BaseFileName) (cap : ℕ) : Prop :=
  base.os = utf8Bytes base.text ∧ CleanName base.text ∧ size base.text = cap ∧
    ∃ front n, front ≠ [] ∧ 1 ≤ n ∧ n ≤ renameMaxSuffix ∧ base.stem = front ++ renameSuffix n

/-- The base is of one of the two kinds. -/
def CandidatesCollide (base : BaseFileName) (cap : ℕ) : Prop :=
  HidesNumber base cap ∨ NumberedBase base cap

/-! ### What the cleaning does to a sibling -/

theorem lastComponent_append (x y : List Char) {sep : Char} (hsep : isPathSeparator sep = true) :
    lastComponent (x ++ sep :: y) = (lastComponent y).or (lastComponent x) := by
  rw [lastComponent, List.splitOnP_append_cons x y hsep, List.reverse_append, List.find?_append]
  rfl

theorem legalText_append (a b : List Char) : legalText (a ++ b) = legalText a ++ legalText b := by
  simp [legalText]

/-- What is dropped at the end stays behind a character that is kept. -/
theorem rdropWhile_append_of_last {p : Char → Bool} {a : List Char} {c : Char} (hc : p c = false)
    (b : List Char) : (a ++ [c] ++ b).rdropWhile p = a ++ [c] ++ b.rdropWhile p := by
  induction b using List.reverseRecOn with
  | nil => rw [List.append_nil, List.rdropWhile_concat_neg p a c (by simp [hc]), List.rdropWhile_nil,
      List.append_nil]
  | append_singleton b d ih =>
    rw [← List.append_assoc]
    by_cases hd : p d = true
    · rw [List.rdropWhile_concat_pos p _ d hd, List.rdropWhile_concat_pos p b d hd, ih]
    · rw [List.rdropWhile_concat_neg p _ d hd, List.rdropWhile_concat_neg p b d hd,
        List.append_assoc]

theorem size_legalText_le (l : List Char) : size (legalText l) ≤ size l := by
  have hill : ∀ c : Char, size [if isIllegal c then '_' else c] ≤ c.utf8Size := by
    intro c
    split_ifs
    · exact c.utf8Size_pos
    · exact le_of_eq (Nat.zero_add _)
  induction l with
  | nil => exact le_rfl
  | cons c l ih =>
    have hcons : c :: l = [c] ++ l := rfl
    rw [hcons, legalText_append, size_append, size_append]
    refine Nat.add_le_add ?_ ih
    by_cases hc : isControl c = true
    · rw [legalText, List.filter_cons_of_neg (by simp [hc])]
      exact Nat.zero_le _
    · rw [legalText, List.filter_cons_of_pos (by simp [hc])]
      exact (hill c).trans (le_of_eq (Nat.zero_add _).symm)

/-- No device name is empty or holds a parenthesis. -/
theorem reserved_free : ∀ reserved ∈ reservedBasenames,
    reserved.toList.map Char.toLower ≠ [] ∧ '(' ∉ reserved.toList.map Char.toLower := by decide

/-- Digits need no replacement anywhere in a name. -/
theorem nameChar_of_digit {c : Char} (h : c.isDigit = true) : NameChar c where
  separator := by
    rw [isPathSeparator, Bool.or_eq_false_iff, decide_eq_false_iff_not, decide_eq_false_iff_not]
    constructor <;>
    · rintro rfl
      cases h
  control := by
    rw [Char.isDigit, Bool.and_eq_true, decide_eq_true_eq, decide_eq_true_eq] at h
    have hlow : 48 ≤ c.toNat := h.1
    have hhigh : c.toNat ≤ 57 := h.2
    rw [isControl, Bool.or_eq_false_iff, Bool.and_eq_false_iff]
    exact ⟨decide_eq_false (by omega), .inl (decide_eq_false (by omega))⟩
  legal := by
    have hnone : ∀ d ∈ "<>:\"|?*".toList, d.isDigit = false :=
      forall_mem_of_all (by decide)
    rw [isIllegal, List.contains_eq_mem, decide_eq_false_iff_not]
    intro hmem
    rw [hnone c hmem] at h
    cases h

theorem nameChar_renameSuffix (n : ℕ) : ∀ c ∈ renameSuffix n, NameChar c := by
  intro c hc
  rcases List.mem_append.mp hc with hc | hc
  · rcases List.mem_cons.mp hc with rfl | hc
    · exact ⟨by decide, by decide, by decide⟩
    rcases List.mem_cons.mp hc with rfl | hc
    · exact ⟨by decide, by decide, by decide⟩
    · exact nameChar_of_digit (Nat.isDigit_of_mem_toDigits (by decide) (by decide) hc)
  · rw [List.mem_singleton.mp hc]
    exact ⟨by decide, by decide, by decide⟩

/-- The part of a sibling in front of its suffix. -/
def siblingFront (cut : List Char) : List Char :=
  legalText (cut.rtakeWhile fun c => !isPathSeparator c)

/-- The part of a sibling behind its suffix. -/
def siblingTail (ext : List Char) : List Char :=
  (legalText (ext.takeWhile fun c => !isPathSeparator c)).rdropWhile isTrailing

/-- A cleaned sibling. -/
def siblingText (cut ext : List Char) (n : ℕ) : List Char :=
  siblingFront cut ++ renameSuffix n ++ siblingTail ext

theorem takeWhile_free (ext : List Char) :
    ∀ c ∈ ext.takeWhile fun c => !isPathSeparator c, isPathSeparator c = false := by
  intro c hc
  simpa using List.mem_takeWhile_imp hc

theorem rtakeWhile_free (cut : List Char) :
    ∀ c ∈ cut.rtakeWhile fun c => !isPathSeparator c, isPathSeparator c = false := by
  intro c hc
  simpa using List.mem_rtakeWhile_imp hc

/-- An extension is free of separators, or has one in front of the hidden part. -/
theorem ext_cases (ext : List Char) :
    (ext = (ext.takeWhile fun c => !isPathSeparator c) ∧ behindSeparator ext = []) ∨
      ∃ sep, isPathSeparator sep = true ∧
        ext = (ext.takeWhile fun c => !isPathSeparator c) ++ sep :: behindSeparator ext := by
  rcases hrest : ext.dropWhile (fun c => !isPathSeparator c) with - | ⟨sep, post⟩
  · left
    have happend := List.takeWhile_append_dropWhile (p := fun c => !isPathSeparator c) (l := ext)
    rw [hrest, List.append_nil] at happend
    exact ⟨happend.symm, by rw [behindSeparator, hrest, List.tail_nil]⟩
  · right
    have happend := List.takeWhile_append_dropWhile (p := fun c => !isPathSeparator c) (l := ext)
    have hsep := List.head?_dropWhile_not (fun c => !isPathSeparator c) ext
    rw [hrest] at happend hsep
    refine ⟨sep, by simpa using hsep, ?_⟩
    rw [behindSeparator, hrest, List.tail_cons, happend]

/-- What stands behind a separator is selected. -/
theorem lastComponent_hidden {ext hidden : List Char}
    (h : lastComponent (behindSeparator ext) = some hidden) (x : List Char) :
    lastComponent (x ++ ext) = some hidden := by
  rcases ext_cases ext with ⟨-, hnone⟩ | ⟨sep, hsep, hext⟩
  · rw [hnone] at h
    cases h
  · rw [hext, ← List.append_assoc, lastComponent_append _ _ hsep, h, Option.some_or]

/-- Otherwise the component around the suffix is. -/
theorem lastComponent_numbered {ext : List Char} (h : lastComponent (behindSeparator ext) = none)
    (cut : List Char) (n : ℕ) :
    lastComponent (cut ++ renameSuffix n ++ ext) =
      some ((cut.rtakeWhile fun c => !isPathSeparator c) ++ renameSuffix n ++
        ext.takeWhile fun c => !isPathSeparator c) := by
  let notSep : Char → Bool := fun c => !isPathSeparator c
  have hcore : lastComponent (cut.rtakeWhile notSep ++ renameSuffix n ++ ext.takeWhile notSep) =
      some (cut.rtakeWhile notSep ++ renameSuffix n ++ ext.takeWhile notSep) := by
    refine lastComponent_of_free (fun c hc => ?_) (by simp [renameSuffix])
    rcases List.mem_append.mp hc with hc | hc
    · rcases List.mem_append.mp hc with hc | hc
      · exact rtakeWhile_free cut c hc
      · exact (nameChar_renameSuffix n c hc).separator
    · exact takeWhile_free ext c hc
  have hend : ∀ x, lastComponent (x ++ ext) = lastComponent (x ++ ext.takeWhile notSep) := by
    intro x
    rcases ext_cases ext with ⟨hext, -⟩ | ⟨sep, hsep, hext⟩
    · exact congrArg (fun e => lastComponent (x ++ e)) hext
    · conv_lhs => rw [hext]
      rw [← List.append_assoc, lastComponent_append _ _ hsep, h, Option.none_or]
  rw [hend]
  -- the stem may hold separators itself
  have hcut : cut.rdropWhile notSep ++ cut.rtakeWhile notSep = cut :=
    List.rdropWhile_append_rtakeWhile
  rcases List.eq_nil_or_concat (cut.rdropWhile notSep) with hnil | ⟨front, sep, hfront⟩
  · rw [hnil, List.nil_append] at hcut
    rw [hcut] at hcore
    rw [hcore, hcut]
  · have hsep : isPathSeparator sep = true := by
      have hlast := List.rdropWhile_last_not notSep cut (by simp [hfront])
      simpa [notSep, hfront] using hlast
    have hassoc : cut ++ renameSuffix n ++ ext.takeWhile notSep =
        front ++ sep :: (cut.rtakeWhile notSep ++ renameSuffix n ++ ext.takeWhile notSep) := by
      conv_lhs => rw [← hcut, hfront]
      simp
    rw [hassoc, lastComponent_append _ _ hsep, hcore, Option.some_or]

theorem siblingText_eq (cut ext : List Char) (n : ℕ) :
    (legalText ((cut.rtakeWhile fun c => !isPathSeparator c) ++ renameSuffix n ++
      ext.takeWhile fun c => !isPathSeparator c)).rdropWhile isTrailing = siblingText cut ext n := by
  have hlast : isTrailing ')' = false := by decide
  rw [legalText_append, legalText_append, legalText_of_nameChars (nameChar_renameSuffix n),
    renameSuffix, ← List.append_assoc, rdropWhile_append_of_last hlast, siblingText, renameSuffix,
    ← List.append_assoc]
  rfl

theorem paren_mem_siblingText (cut ext : List Char) (n : ℕ) : '(' ∈ siblingText cut ext n := by
  simp [siblingText, renameSuffix, numberText]

/-- A sibling is cleaned to its three parts, and may be prefixed. -/
theorem cleanName_numbered {ext : List Char} (h : lastComponent (behindSeparator ext) = none)
    (cut : List Char) (n : ℕ) :
    cleanName (cut ++ renameSuffix n ++ ext) =
      some (if isReservedDeviceBasename (siblingText cut ext n) then '_' :: siblingText cut ext n
        else siblingText cut ext n) := by
  have hmem := paren_mem_siblingText cut ext n
  have hdots : ((siblingText cut ext n).isEmpty || (siblingText cut ext n).all (· = '.')) =
      false := by
    rw [Bool.or_eq_false_iff, List.isEmpty_eq_false_iff, List.all_eq_false]
    exact ⟨List.ne_nil_of_mem hmem, '(', hmem, by decide⟩
  rw [cleanName, lastComponent_numbered h, Option.bind_some, cleanComponent, siblingText_eq, hdots,
    if_neg (by decide)]
  split_ifs <;> rfl

/-! ### Device names -/

/-- A device name in front of a suffix ends at a period in the stem. -/
theorem dot_of_reserved {cut ext : List Char} {n : ℕ}
    (h : isReservedDeviceBasename (siblingText cut ext n) = true) : '.' ∈ (siblingFront cut).tail := by
  obtain ⟨reserved, hmem, heq⟩ := List.any_eq_true.mp h
  simp only [eqIgnoreAsciiCase, decide_eq_true_eq, String.toList_ofList] at heq
  obtain ⟨hne, hfree⟩ := reserved_free reserved hmem
  rw [heq] at hne hfree
  rw [ne_eq, List.map_eq_nil_iff] at hne
  rw [siblingText, List.append_assoc] at hne hfree
  have hdot : '.' ∈ siblingFront cut := by
    by_contra hnot
    have hall : ∀ c ∈ siblingFront cut ++ numberText n, decide (c ≠ '.') = true := by
      intro c hc
      rw [decide_eq_true_eq]
      rintro rfl
      rcases List.mem_append.mp hc with hc | hc
      · exact hnot hc
      · rcases List.mem_cons.mp hc with heq | hc
        · cases heq
        rcases List.mem_cons.mp hc with heq | hc
        · cases heq
        · exact dot_notMem_toDigits n hc
    rw [renameSuffix, List.append_assoc, ← List.append_assoc,
      List.takeWhile_append_of_pos hall] at hfree
    refine hfree (List.mem_map.mpr ⟨'(', ?_, by decide⟩)
    simp [numberText]
  rcases hfront : siblingFront cut with - | ⟨c, front⟩ <;> rw [hfront] at hdot hne
  · cases hdot
  · rcases List.mem_cons.mp hdot with rfl | hdot
    · exact absurd (List.takeWhile_cons_of_neg (by decide)) hne
    · exact hdot

/-- The period stands in the stem behind its first character. -/
theorem dot_mem_stem {stem cut : List Char} (hcut : cut <+: stem)
    (h : '.' ∈ (siblingFront cut).tail) : '.' ∈ stem.tail := by
  have hlegal : ∀ l : List Char, '.' ∈ legalText l → '.' ∈ l := by
    intro l hl
    obtain ⟨c, hc, heq⟩ := List.mem_map.mp hl
    split_ifs at heq with hill
    · cases heq
    · exact heq ▸ (List.mem_filter.mp hc).1
  have htail : ∀ l : List Char, '.' ∈ (legalText l).tail → '.' ∈ l.tail := by
    intro l hl
    rcases l with - | ⟨c, l⟩
    · cases hl
    · have hcons : c :: l = [c] ++ l := rfl
      rw [hcons, legalText_append] at hl
      by_cases hc : isControl c = true
      · have hnone : legalText [c] = [] := by simp [legalText, hc]
        rw [hnone, List.nil_append] at hl
        exact hlegal l (List.mem_of_mem_tail hl)
      · have hone : legalText [c] = [if isIllegal c then '_' else c] := by simp [legalText, hc]
        rw [hone] at hl
        exact hlegal l hl
  have hmem : '.' ∈ cut.tail := by
    have hpart := htail _ h
    obtain ⟨front, hfront⟩ := List.rtakeWhile_suffix (fun c => !isPathSeparator c) cut
    rcases front with - | ⟨c, front⟩
    · rw [List.nil_append] at hfront
      exact hfront ▸ hpart
    · rw [← hfront]
      exact List.mem_append_right front (List.mem_of_mem_tail hpart)
  obtain ⟨rest, rfl⟩ := hcut
  rcases cut with - | ⟨c, cut⟩
  · cases hmem
  · exact List.mem_append_left rest hmem

/-- The dots of a stem and an extension that were split from one name. -/
structure SplitAtDot (stem ext : List Char) : Prop where
  bare : ext = [] → '.' ∉ stem.tail
  dotted : ext ≠ [] → ∃ e, ext = '.' :: e ∧ '.' ∉ e

/-- A device name needs an extension, or it would be cut from it. -/
theorem ext_of_reserved {stem ext cut : List Char} {n : ℕ} (hsplit : SplitAtDot stem ext)
    (hcut : cut <+: stem) (h : isReservedDeviceBasename (siblingText cut ext n) = true) :
    ∃ e, ext = '.' :: e ∧ '.' ∉ e := by
  refine hsplit.dotted fun hnil => hsplit.bare hnil ?_
  exact dot_mem_stem hcut (dot_of_reserved h)

/-- A tail that is left is an extension again. -/
theorem siblingTail_cases {e : List Char} (hfree : '.' ∉ e) :
    siblingTail ('.' :: e) = [] ∨ ∃ t, siblingTail ('.' :: e) = '.' :: t ∧ t ≠ [] ∧ '.' ∉ t := by
  have hsep : isPathSeparator '.' = false := by decide
  have hlegal : legalText (('.' :: e).takeWhile fun c => !isPathSeparator c) =
      '.' :: legalText (e.takeWhile fun c => !isPathSeparator c) := by
    rw [List.takeWhile_cons_of_pos (by simp [hsep])]
    exact legalText_append ['.'] _
  have hdot : '.' ∉ legalText (e.takeWhile fun c => !isPathSeparator c) := by
    intro hmem
    obtain ⟨c, hc, heq⟩ := List.mem_map.mp hmem
    split_ifs at heq with hill
    · cases heq
    · exact hfree (heq ▸ List.takeWhile_subset _ (List.mem_filter.mp hc).1)
  rw [siblingTail, hlegal]
  generalize legalText (e.takeWhile fun c => !isPathSeparator c) = rest at hdot
  rcases htail : ('.' :: rest).rdropWhile isTrailing with - | ⟨c, t⟩
  · exact .inl rfl
  · right
    have hpre := List.rdropWhile_prefix isTrailing ('.' :: rest)
    rw [htail, List.cons_prefix_cons] at hpre
    obtain ⟨rfl, hpre⟩ := hpre
    refine ⟨t, rfl, ?_, fun hmem => hdot (hpre.subset hmem)⟩
    rintro rfl
    -- a lone period would have been dropped
    have hlast := List.rdropWhile_last_not isTrailing ('.' :: rest) (by simp [htail])
    rw [List.getLast_congr _ (List.cons_ne_nil '.' []) htail] at hlast
    exact hlast (by decide)

/-! ### What the sanitizer returns for a sibling -/

theorem size_le_of_sublist {a b : List Char} (h : a.Sublist b) : size a ≤ size b := by
  induction h with
  | slnil => exact le_rfl
  | cons c _ ih => exact ih.trans (Nat.le_add_right _ _)
  | cons_cons c _ ih => exact Nat.add_le_add_right ih _

theorem size_cleanComponent_le {component name : List Char}
    (h : cleanComponent component = some name) : size name ≤ size component + 1 := by
  have htrim := size_le_of_sublist (List.rdropWhile_prefix isTrailing (legalText component)).sublist
  have hlegal := size_legalText_le component
  rw [cleanComponent] at h
  split_ifs at h with hempty hreserved
  · cases h
    exact Nat.add_le_add_right (htrim.trans hlegal) 1
  · cases h
    omega

theorem size_siblingFront_le (cut : List Char) : size (siblingFront cut) ≤ size cut :=
  (size_legalText_le _).trans (size_le_of_sublist (List.rtakeWhile_suffix _ _).sublist)

theorem size_siblingTail_le (ext : List Char) : size (siblingTail ext) ≤ size ext :=
  (size_le_of_sublist (List.rdropWhile_prefix _ _).sublist).trans
    ((size_legalText_le _).trans (size_le_of_sublist (List.takeWhile_sublist _)))

theorem size_siblingText (cut ext : List Char) (n : ℕ) :
    size (siblingText cut ext n) =
      size (siblingFront cut) + size (renameSuffix n) + size (siblingTail ext) := by
  rw [siblingText, size_append, size_append]

/-- A clean name that is cut by one byte, in front of its extension. -/
theorem truncate_closing {front t : List Char} {cap : ℕ}
    (hcand : CleanName ('_' :: front ++ [')'] ++ '.' :: t)) (ht : t ≠ []) (hfree : '.' ∉ t)
    (hsize : size ('_' :: front ++ [')'] ++ '.' :: t) = cap + 1) :
    truncatePreservingExtension ('_' :: front ++ [')'] ++ '.' :: t) cap =
        some ('_' :: front ++ '.' :: t) ∧
      CleanName ('_' :: front ++ '.' :: t) ∧ size ('_' :: front ++ '.' :: t) = cap := by
  have hclosing : size [')'] = 1 := rfl
  have hdot : size ('.' :: t) = size t + 1 := rfl
  have hunder : size ('_' :: front) = size front + 1 := rfl
  rw [size_append, size_append, hclosing, hdot, hunder] at hsize
  have hfits : size ('_' :: front) = cap - (size t + 1) := by omega
  refine ⟨?_, ⟨?_, ?_, not_reserved_cons_underscore _⟩, ?_⟩
  · rw [truncate_extension (by simp) ht hfree (pathFileName_of_clean hcand)
      (by rw [size_append, size_append, hclosing, hdot]; omega) (by omega), ← hfits,
      takeBytes_append, takeBytes_zero, List.append_nil]
  · intro c hc
    refine hcand.chars c ?_
    rcases List.mem_append.mp hc with hc | hc
    · exact List.mem_append_left _ (List.mem_append_left _ hc)
    · exact List.mem_append_right _ hc
  · have htail := hcand.tail
    rw [List.getLast?_append_of_ne_nil _ (List.cons_ne_nil _ _)] at htail ⊢
    exact htail
  · rw [size_append, hdot]
    omega

/-- The name of a sibling: cleaned as it is, or prefixed and without the closing
parenthesis if that does not fit. -/
inductive SiblingName (cut ext : List Char) (n : ℕ) : List Char → Prop
  | plain (h : isReservedDeviceBasename (siblingText cut ext n) = false) :
      SiblingName cut ext n (siblingText cut ext n)
  | prefixed (h : isReservedDeviceBasename (siblingText cut ext n) = true) {closing : List Char}
      (hclosing : closing = [] ∨ closing = [')']) :
      SiblingName cut ext n ('_' :: (siblingFront cut ++ numberText n) ++ closing ++ siblingTail ext)

/-- **A sibling keeps its shape behind the sanitizer.** -/
theorem sanitize_numbered {stem ext cut : List Char} {cap n : ℕ} (hsplit : SplitAtDot stem ext)
    (hcut : cut <+: stem) (hvisible : lastComponent (behindSeparator ext) = none)
    (hroom : size cut + size (renameSuffix n) + size ext ≤ cap) (hcap : cap ≠ 0) :
    ∃ name, trySanitizeFilename (cut ++ renameSuffix n ++ ext) cap = some name ∧
      CleanName name ∧ size name ≤ cap ∧ SiblingName cut ext n name := by
  have hclean := cleanName_numbered hvisible cut n
  have hfront := size_siblingFront_le cut
  have htail := size_siblingTail_le ext
  have hsize := size_siblingText cut ext n
  rw [trySanitizeFilename, if_neg hcap, hclean, Option.bind_some]
  have hcand := cleanName_spec hclean
  by_cases hreserved : isReservedDeviceBasename (siblingText cut ext n) = true
  · rw [if_pos hreserved] at hcand ⊢
    have hlong : size ('_' :: siblingText cut ext n) = size (siblingText cut ext n) + 1 := rfl
    have hassoc : '_' :: siblingText cut ext n =
        '_' :: (siblingFront cut ++ numberText n) ++ [')'] ++ siblingTail ext := by
      rw [siblingText, renameSuffix]
      simp
    by_cases hover : cap < size ('_' :: siblingText cut ext n)
    · -- the prefix does not fit: the closing parenthesis goes
      obtain ⟨e, rfl, hfree⟩ := ext_of_reserved hsplit hcut hreserved
      have hdot : size ('.' :: e) = size e + 1 := rfl
      rcases siblingTail_cases hfree with hnil | ⟨t, ht, hne, htfree⟩
      · rw [hnil, size_nil] at hsize
        omega
      · have heq : size ('_' :: siblingText cut ('.' :: e) n) = cap + 1 := by omega
        rw [hassoc, ht] at hcand heq
        obtain ⟨htruncate, hcandidate, hfits⟩ := truncate_closing hcand hne htfree heq
        refine ⟨_, ?_, hcandidate, hfits.le, ?_⟩
        · rw [if_pos hover, hassoc, ht, htruncate, Option.bind_some,
            recheckName_of_clean hcandidate]
        · have hname := SiblingName.prefixed hreserved (.inl rfl)
          rw [List.append_nil, ht] at hname
          exact hname
    · refine ⟨_, ?_, hcand, not_lt.mp hover, ?_⟩
      · rw [if_neg hover, Option.bind_some, recheckName_of_clean hcand]
      · rw [hassoc]
        exact .prefixed hreserved (.inr rfl)
  · rw [if_neg hreserved] at hcand ⊢
    have hfits : size (siblingText cut ext n) ≤ cap := by omega
    refine ⟨_, ?_, hcand, hfits, .plain (Bool.eq_false_iff.mpr hreserved)⟩
    rw [if_neg (not_lt.mpr hfits), Option.bind_some, recheckName_of_clean hcand]

/-! ### Numbers are kept apart -/

/-- The number can be read back in front of a tail. -/
def Numbered (tail : List Char) (n : ℕ) (name : List Char) : Prop :=
  ∃ front closing, (closing = [] ∨ closing = [')']) ∧
    name = front ++ numberText n ++ closing ++ tail

theorem SiblingName.numbered {cut ext name : List Char} {n : ℕ} (h : SiblingName cut ext n name) :
    Numbered (siblingTail ext) n name := by
  cases h with
  | plain =>
    refine ⟨siblingFront cut, [')'], .inr rfl, ?_⟩
    rw [siblingText, renameSuffix, ← List.append_assoc]
  | prefixed _ hclosing => exact ⟨'_' :: siblingFront cut, _, hclosing, rfl⟩

theorem paren_notMem_toDigits (n : ℕ) : '(' ∉ Nat.toDigits 10 n := by
  intro h
  have hdigit := Nat.isDigit_of_mem_toDigits (by decide) (by decide) h
  cases hdigit

theorem numberText_inj {a b : List Char} {m n : ℕ} (h : a ++ numberText m = b ++ numberText n) :
    m = n := by
  have hsplit : ∀ (a : List Char) (n : ℕ),
      rsplitOnce '(' (a ++ numberText n) = some (a ++ [' '], Nat.toDigits 10 n) := by
    intro a n
    refine rsplitOnce_eq_some.mpr ⟨?_, paren_notMem_toDigits n⟩
    rw [numberText, List.append_assoc]
    rfl
  have hboth := hsplit a m
  rw [h, hsplit b n] at hboth
  exact (toDigits_inj (Prod.mk.inj (Option.some.inj hboth)).2).symm

/-- **Names of different numbers differ.** -/
theorem numbered_inj {tail name : List Char} {m n : ℕ} (hm : Numbered tail m name)
    (hn : Numbered tail n name) : m = n := by
  obtain ⟨a, x, hx, rfl⟩ := hm
  obtain ⟨b, y, hy, heq⟩ := hn
  have heq := List.append_cancel_right heq
  -- a number does not end in a parenthesis
  have hlast : ∀ (a : List Char) (n : ℕ), ∀ c ∈ (a ++ numberText n).getLast?, c ≠ ')' := by
    rintro a n c hc rfl
    have hne : Nat.toDigits 10 n ≠ [] := Nat.toDigits_ne_nil
    have hsplit : a ++ numberText n = (a ++ [' ', '(']) ++ Nat.toDigits 10 n := by
      simp [numberText]
    rw [hsplit, List.getLast?_append_of_ne_nil _ hne] at hc
    have hdigit := Nat.isDigit_of_mem_toDigits (by decide) (by decide) (List.mem_of_getLast? hc)
    cases hdigit
  rcases hx with rfl | rfl <;> rcases hy with rfl | rfl
  · rw [List.append_nil, List.append_nil] at heq
    exact numberText_inj heq
  · rw [List.append_nil] at heq
    exact absurd rfl (hlast a m ')' (by rw [heq, List.getLast?_concat]; rfl))
  · rw [List.append_nil] at heq
    exact absurd rfl (hlast b n ')' (by rw [← heq, List.getLast?_concat]; rfl))
  · exact numberText_inj (List.append_cancel_right heq)

namespace BaseFileName

variable (base : BaseFileName)

theorem pathFileName_text : pathFileName base.text = some base.text := by
  rw [pathFileName, text, base.single]
  rfl

/-- A base name is its stem and its extension. -/
theorem split_text : base.text = base.stem ++ base.ext ∧ SplitAtDot base.stem base.ext := by
  have hdotdot : base.text ≠ ['.', '.'] := by
    intro h
    have hsingle : pathComponents base.text = [.normal base.text] := base.single
    rw [h] at hsingle
    exact absurd hsingle (by decide)
  rw [stem, ext, pathFileStem, pathExtension, base.pathFileName_text, Option.map_some,
    Option.getD_some, Option.bind_some, fileStemExtension, if_neg hdotdot]
  rcases hsplit : rsplitOnce '.' base.text with - | ⟨before, after⟩
  · have hfree : '.' ∉ base.text := by
      rw [rsplitOnce, Option.map_eq_none_iff, splitOnce_eq_none, List.mem_reverse] at hsplit
      exact hsplit
    exact ⟨(List.append_nil _).symm, fun _ hmem => hfree (List.mem_of_mem_tail hmem),
      fun h => absurd rfl h⟩
  · obtain ⟨htext, hfree⟩ := rsplitOnce_eq_some.mp hsplit
    by_cases hbefore : before = []
    · simp only [if_pos hbefore]
      refine ⟨(List.append_nil _).symm, fun _ => ?_, fun h => absurd rfl h⟩
      rw [htext, hbefore]
      exact hfree
    · simp only [if_neg hbefore]
      exact ⟨htext, fun h => absurd h (List.cons_ne_nil _ _), fun _ => ⟨after, rfl, hfree⟩⟩

end BaseFileName

section Candidates

variable {base : BaseFileName} {cap n : ℕ}

/-- The part of the stem that is kept in front of a suffix. -/
def renameCut (base : BaseFileName) (cap n : ℕ) : List Char :=
  takeBytes (cap - size (renameSuffix n) - size base.ext) base.stem

theorem renameSibling_eq (base : BaseFileName) (cap n : ℕ) :
    renameSibling base.stem base.ext cap n =
      if renameCut base cap n = [] then none
      else trySanitizeFilename (renameCut base cap n ++ renameSuffix n ++ base.ext) cap := by
  rw [renameSibling, takeBytes_min, renameCut]
  by_cases hbudget : cap - size (renameSuffix n) - size base.ext = 0
  · rw [hbudget, if_pos rfl, takeBytes_zero, if_pos rfl]
  · rw [if_neg hbudget]

/-- A cut that leaves something leaves room. -/
theorem renameCut_room (h : renameCut base cap n ≠ []) :
    size (renameCut base cap n) + size (renameSuffix n) + size base.ext ≤ cap ∧ cap ≠ 0 := by
  have hcut := size_takeBytes (cap - size (renameSuffix n) - size base.ext) base.stem
  have hbudget : cap - size (renameSuffix n) - size base.ext ≠ 0 := fun hzero =>
    h (by rw [renameCut, hzero, takeBytes_zero])
  rw [renameCut]
  omega

theorem size_renameSuffix (n : ℕ) : size (renameSuffix n) = (Nat.toDigits 10 n).length + 3 := by
  have hdigits := JsonText.size_number n
  rw [JsonText.number] at hdigits
  have hspace : (' ' : Char).utf8Size = 1 := rfl
  have hopen : ('(' : Char).utf8Size = 1 := rfl
  have hclosing : size [')'] = 1 := rfl
  rw [renameSuffix, numberText, size_append, size_cons, size_cons, hdigits, hspace, hopen, hclosing]

/-- Where any sibling has room, the first one has. -/
theorem renameCut_ne_nil_of_sibling {name : List Char}
    (h : renameSibling base.stem base.ext cap n = some name) : renameCut base cap 1 ≠ [] := by
  rw [renameSibling_eq] at h
  split_ifs at h with hcut
  have hlen : 0 < (Nat.toDigits 10 n).length := List.length_pos_of_ne_nil Nat.toDigits_ne_nil
  have hone : size (renameSuffix 1) = 4 := by decide
  have hsuffix := size_renameSuffix n
  rw [renameCut] at hcut ⊢
  generalize base.stem = stem at hcut ⊢
  rcases stem with - | ⟨c, stem⟩
  · exact hcut
  · rw [takeBytes] at hcut ⊢
    split_ifs at hcut with hfirst
    · rw [if_pos (by omega)]
      exact List.cons_ne_nil _ _
    · exact absurd rfl hcut

/-- Without a hidden part a sibling is a clean name with its number. -/
theorem sibling_spec (hvisible : cleanName (behindSeparator base.ext) = none) {name : List Char}
    (h : renameSibling base.stem base.ext cap n = some name) :
    renameCut base cap n ≠ [] ∧ CleanName name ∧ size name ≤ cap ∧
      SiblingName (renameCut base cap n) base.ext n name := by
  rw [renameSibling_eq] at h
  split_ifs at h with hcut
  obtain ⟨hroom, hcap⟩ := renameCut_room hcut
  rcases hlast : lastComponent (behindSeparator base.ext) with - | hidden
  · have hpre : renameCut base cap n <+: base.stem := takeBytes_isPrefix _ _
    obtain ⟨name', hname, hclean, hfits, hform⟩ :=
      sanitize_numbered base.split_text.2 hpre hlast hroom hcap
    rw [h] at hname
    cases hname
    exact ⟨hcut, hclean, hfits, hform⟩
  · -- what is hidden is not a name, and then there is no sibling
    rw [cleanName, hlast, Option.bind_some] at hvisible
    rw [trySanitizeFilename, if_neg hcap, cleanName, lastComponent_hidden hlast, Option.bind_some,
      hvisible] at h
    cases h

theorem takeBytes_stop {limit : ℕ} {a b : List Char} {c : Char}
    (h : takeBytes limit (a ++ c :: b) = a) : limit < size a + c.utf8Size := by
  induction a generalizing limit with
  | nil =>
    by_contra hle
    rw [List.nil_append, takeBytes, if_pos (by rw [size_nil] at hle; omega)] at h
    cases h
  | cons d a ih =>
    rw [List.cons_append, takeBytes] at h
    split_ifs at h with hd
    · have hrest := ih (List.tail_eq_of_cons_eq h)
      rw [size_cons]
      omega

/-- A base that is one of its siblings ends in the number and fills the cap. -/
theorem numbered_of_collision (hvisible : cleanName (behindSeparator base.ext) = none)
    (hn : 1 ≤ n) (hmax : n ≤ renameMaxSuffix) {name : List Char}
    (h : renameSibling base.stem base.ext cap n = some name) (hbase : base.os = utf8Bytes name) :
    NumberedBase base cap := by
  obtain ⟨hne, hclean, hfits, hform⟩ := sibling_spec hvisible h
  have htext : base.text = name := by
    rw [BaseFileName.text, hbase, toStringLossy_utf8Bytes]
  have hcleanText : CleanName base.text := htext ▸ hclean
  have hutf8 : base.os = utf8Bytes base.text := htext ▸ hbase
  obtain ⟨hsplit, -⟩ := base.split_text
  have hcut : renameCut base cap n <+: base.stem := takeBytes_isPrefix _ _
  have hchars : ∀ c ∈ base.stem ++ base.ext, NameChar c := by
    rw [← hsplit, htext]
    exact hclean.chars
  have hstem : ∀ c ∈ renameCut base cap n, NameChar c := fun c hc =>
    hchars c (List.mem_append_left _ (hcut.subset hc))
  have hext : ∀ c ∈ base.ext, NameChar c := fun c hc => hchars c (List.mem_append_right _ hc)
  -- the three parts are clean already
  have hfront : siblingFront (renameCut base cap n) = renameCut base cap n := by
    rw [siblingFront, List.rtakeWhile_eq_self_iff.mpr fun c hc => by simp [(hstem c hc).separator],
      legalText_of_nameChars hstem]
  have htail : siblingTail base.ext = base.ext := by
    rw [siblingTail, List.takeWhile_eq_self_iff.mpr fun c hc => by simp [(hext c hc).separator],
      legalText_of_nameChars hext]
    refine List.rdropWhile_eq_self_iff.mpr fun hne' => ?_
    obtain ⟨c, hc, htrailing⟩ := hclean.tail
    rw [← htext, hsplit, List.getLast?_append_of_ne_nil _ hne',
      List.getLast?_eq_getLast_of_ne_nil hne'] at hc
    cases hc
    simp [htrailing]
  rcases hcutcase : renameCut base cap n with - | ⟨c, cut⟩
  · exact absurd hcutcase hne
  obtain ⟨rest, hrest⟩ := hcut
  cases hform with
  | prefixed hreserved =>
    -- the stem starts with the underscore, and so does the sibling
    rw [hsplit, ← hrest, hcutcase, List.cons_append, List.cons_append, List.cons_append] at htext
    obtain ⟨rfl, -⟩ := List.cons.inj htext
    rw [siblingText, hfront, hcutcase, List.cons_append, List.cons_append,
      not_reserved_cons_underscore] at hreserved
    cases hreserved
  | plain =>
    rw [hsplit, siblingText, hfront, htail] at htext
    have hstemeq : base.stem = renameCut base cap n ++ renameSuffix n :=
      List.append_cancel_right htext
    refine ⟨hutf8, hcleanText, ?_, renameCut base cap n, n, hne, hn, hmax, hstemeq⟩
    -- the cut stops in front of the suffix only where the cap is reached
    have hstop : cap - size (renameSuffix n) - size base.ext < size (renameCut base cap n) + 1 := by
      have hcuteq : takeBytes (cap - size (renameSuffix n) - size base.ext)
          (renameCut base cap n ++ renameSuffix n) = renameCut base cap n := by
        rw [← hstemeq, renameCut]
      exact takeBytes_stop hcuteq
    obtain ⟨hroom, -⟩ := renameCut_room hne
    rw [hsplit, hstemeq, size_append, size_append]
    omega

/-- Conversely that base is its own sibling. -/
theorem collision_of_numbered (h : NumberedBase base cap) :
    ∃ n, 1 ≤ n ∧ n ≤ renameMaxSuffix ∧
      (renameSibling base.stem base.ext cap n).map utf8Bytes = some base.os := by
  obtain ⟨hutf8, hclean, hsize, front, n, hne, hn, hmax, hstem⟩ := h
  obtain ⟨hsplit, -⟩ := base.split_text
  have htext : base.text = front ++ renameSuffix n ++ base.ext := by rw [← hstem, ← hsplit]
  have hbudget : cap - size (renameSuffix n) - size base.ext = size front := by
    rw [← hsize, htext, size_append, size_append]
    omega
  have hcut : renameCut base cap n = front := by
    rw [renameCut, hbudget, hstem, takeBytes_append, takeBytes_zero, List.append_nil]
  refine ⟨n, hn, hmax, ?_⟩
  rw [renameSibling_eq, hcut, if_neg hne, ← htext, sanitize_of_clean hclean hsize.le,
    Option.map_some, ← hutf8]

/-- With a hidden part the siblings do not depend on the number. -/
theorem sibling_of_hidden {hidden : List Char}
    (hhidden : cleanName (behindSeparator base.ext) = some hidden)
    (hcut : renameCut base cap n ≠ []) :
    renameSibling base.stem base.ext cap n = some hidden := by
  obtain ⟨component, hlast, hclean⟩ := Option.bind_eq_some_iff.mp hhidden
  obtain ⟨hroom, hcap⟩ := renameCut_room hcut
  have hsuffix : 0 < size (renameSuffix n) := by
    rw [renameSuffix, size_append]
    exact Nat.succ_pos _
  have hfits : size hidden ≤ cap := by
    have hname := size_cleanComponent_le hclean
    have hcomponent := size_le_of_sublist (lastComponent_eq_some hlast).1
    have hbehind : size (behindSeparator base.ext) ≤ size base.ext :=
      size_le_of_sublist ((List.tail_sublist _).trans (List.dropWhile_sublist _))
    omega
  have hcleaned : cleanName (renameCut base cap n ++ renameSuffix n ++ base.ext) = some hidden := by
    rw [cleanName, lastComponent_hidden hlast, Option.bind_some, hclean]
  rw [renameSibling_eq, if_neg hcut, trySanitizeFilename, if_neg hcap, hcleaned, Option.bind_some,
    if_neg (not_lt.mpr hfits), Option.bind_some, recheckName_of_clean (cleanName_spec hcleaned)]

/-! ### The candidates are distinct -/

/-- All pairs of a list of numbers, as pairs of numbers. -/
theorem pairwise_range'_iff {R : ℕ → ℕ → Prop} {s k : ℕ} :
    (List.range' s k).Pairwise R ↔ ∀ m n, s ≤ m → m < n → n < s + k → R m n := by
  constructor
  · intro h m n hm hmn hn
    have hlen : (List.range' s k).length = k := List.length_range'
    have hpair := List.pairwise_iff_getElem.mp h (m - s) (n - s) (by omega) (by omega) (by omega)
    simpa [Nat.add_sub_cancel' hm, Nat.add_sub_cancel' (hm.trans hmn.le)] using hpair
  · intro h
    refine (List.pairwise_lt_range' (s := s) (n := k)).imp_of_mem fun {m n} hm hn hmn => ?_
    rw [List.mem_range'_1] at hm hn
    exact h m n hm.1 hmn hn.2

/-- **The candidates are distinct** exactly if no sibling is the base name and
no two siblings agree. -/
theorem nodup_renameCandidates_iff (base : BaseFileName) (cap : ℕ) :
    (renameCandidateNames base cap).reduceOption.Nodup ↔
      (∀ n, 1 ≤ n → n ≤ renameMaxSuffix → ∀ name,
        renameSibling base.stem base.ext cap n = some name → base.os ≠ utf8Bytes name) ∧
      ∀ m n, 1 ≤ m → m < n → n ≤ renameMaxSuffix → ∀ name,
        renameSibling base.stem base.ext cap m = some name →
          renameSibling base.stem base.ext cap n ≠ some name := by
  show ((renameCandidateNames base cap).filterMap id).Nodup ↔ _
  rw [List.Nodup, List.pairwise_filterMap, renameCandidateNames, List.pairwise_cons,
    List.pairwise_map, pairwise_range'_iff]
  refine and_congr ⟨fun h n hn hmax name hname => ?_, fun h other hother => ?_⟩
    ⟨fun h m n hm hmn hmax name hname hsame => ?_, fun h m n hm hmn hmax x hx y hy => ?_⟩
  · have hmem : n ∈ List.range' 1 renameMaxSuffix :=
      List.mem_range'_1.mpr ⟨hn, Nat.lt_one_add_iff.mpr hmax⟩
    exact h _ (List.mem_map.mpr ⟨n, hmem, rfl⟩) _ rfl _ (congrArg (Option.map utf8Bytes) hname)
  · obtain ⟨n, hmem, rfl⟩ := List.mem_map.mp hother
    rw [List.mem_range'_1] at hmem
    rintro _ ⟨⟩ bytes hbytes
    obtain ⟨name, hname, rfl⟩ := Option.map_eq_some_iff.mp hbytes
    exact h n hmem.1 (Nat.lt_one_add_iff.mp hmem.2) name hname
  · exact h m n hm hmn (Nat.lt_one_add_iff.mpr hmax) _ (congrArg (Option.map utf8Bytes) hname) _
      (congrArg (Option.map utf8Bytes) hsame) rfl
  · obtain ⟨name, hname, rfl⟩ := Option.map_eq_some_iff.mp hx
    obtain ⟨name', hname', rfl⟩ := Option.map_eq_some_iff.mp hy
    intro heq
    rw [utf8Bytes_inj heq] at hname
    exact h m n hm hmn (Nat.lt_one_add_iff.mp hmax) name' hname hname'

/-- The candidate at a position behind the base is the sibling of that number. -/
theorem getElem?_renameCandidates (base : BaseFileName) (cap : ℕ) (hn : 0 < n)
    {candidate : Option (List UInt8)} (h : (renameCandidateNames base cap)[n]? = some candidate) :
    n ≤ renameMaxSuffix ∧ candidate = (renameSibling base.stem base.ext cap n).map utf8Bytes := by
  obtain ⟨k, rfl⟩ : ∃ k, n = k + 1 := ⟨n - 1, by omega⟩
  rw [renameCandidateNames, List.getElem?_cons_succ, List.getElem?_map, Option.map_eq_some_iff] at h
  obtain ⟨m, hm, rfl⟩ := h
  obtain ⟨hk, rfl⟩ := List.getElem?_eq_some_iff.mp hm
  rw [List.length_range'] at hk
  refine ⟨hk, ?_⟩
  rw [List.getElem_range', Nat.one_mul, Nat.add_comm]

theorem numberText_infix {tail name : List Char} (h : Numbered tail n name) :
    numberText n <:+: name := by
  obtain ⟨front, closing, -, rfl⟩ := h
  exact ⟨front, closing ++ tail, by simp⟩

theorem not_distinct_of_collide (h : CandidatesCollide base cap) : ¬ DistinctNumbered base cap := by
  intro hdistinct
  obtain ⟨hbase, hsiblings⟩ := (nodup_renameCandidates_iff base cap).mp hdistinct.distinct
  rcases h with ⟨hhidden, hroom⟩ | hnumbered
  · -- the first two siblings are the same
    obtain ⟨hidden, hhidden⟩ := Option.isSome_iff_exists.mp hhidden
    have hsuffix : size (renameSuffix 2) = size (renameSuffix 1) := by decide
    have hroom' : renameCut base cap 2 ≠ [] := by
      rw [renameCut, hsuffix]
      exact hroom
    exact hsiblings 1 2 le_rfl (by decide) (by decide) hidden (sibling_of_hidden hhidden hroom)
      (sibling_of_hidden hhidden hroom')
  · obtain ⟨n, hn, hmax, hsame⟩ := collision_of_numbered hnumbered
    obtain ⟨name, hname, hbytes⟩ := Option.map_eq_some_iff.mp hsame
    exact hbase n hn hmax name hname hbytes.symm

/-- **The rename candidates.**  The candidates are told apart by their numbers
exactly when neither a hidden part nor a number of the base takes the place of
one. -/
theorem rename_candidates_distinct_iff (base : BaseFileName) (cap : ℕ) :
    DistinctNumbered base cap ↔ ¬ CandidatesCollide base cap := by
  constructor
  · exact fun h hcollide => not_distinct_of_collide hcollide h
  · intro hnot
    rw [CandidatesCollide, not_or] at hnot
    obtain ⟨hhides, hnumbered⟩ := hnot
    have hvisible : ∀ {n name}, renameSibling base.stem base.ext cap n = some name →
        cleanName (behindSeparator base.ext) = none := by
      intro n name hname
      have hcut : renameCut base cap 1 ≠ [] := renameCut_ne_nil_of_sibling hname
      by_contra hsome
      exact hhides ⟨Option.isSome_iff_ne_none.mpr hsome, hcut⟩
    have hspec : ∀ {n name}, renameSibling base.stem base.ext cap n = some name →
        CleanName name ∧ size name ≤ cap ∧ Numbered (siblingTail base.ext) n name := by
      intro n name hname
      obtain ⟨-, hclean, hfits, hform⟩ := sibling_spec (hvisible hname) hname
      exact ⟨hclean, hfits, hform.numbered⟩
    constructor
    · refine (nodup_renameCandidates_iff base cap).mpr
        ⟨fun n hn hmax name hname hbase => ?_, fun m n hm hmn hmax name hname hsame => ?_⟩
      · exact hnumbered (numbered_of_collision (hvisible hname) hn hmax hname hbase)
      · exact hmn.ne (numbered_inj (hspec hname).2.2 (hspec hsame).2.2)
    · intro n bytes hn hcandidate
      obtain ⟨-, hbytes⟩ := getElem?_renameCandidates base cap hn hcandidate
      obtain ⟨name, hname, rfl⟩ := Option.map_eq_some_iff.mp hbytes.symm
      obtain ⟨hclean, hfits, hform⟩ := hspec hname
      exact ⟨by rw [length_utf8Bytes]; exact hfits, name, rfl,
        isSingleNormalComponent_of_nameChars hclean.chars hclean.not_dots, numberText_infix hform⟩

end Candidates

/-- A base name that is text. -/
def BaseFileName.ofText (text : List Char) (h : pathComponents text = [.normal text]) :
    BaseFileName where
  os := utf8Bytes text
  single := by rw [toStringLossy_utf8Bytes, h]

theorem BaseFileName.text_ofText {text : List Char} (h : pathComponents text = [.normal text]) :
    (BaseFileName.ofText text h).text = text := toStringLossy_utf8Bytes text

/-- `file (1)` under eight bytes is its own first sibling, and every sibling of
`a.b\\c` is `c`. -/
theorem rename_candidates_repeat :
    ¬ DistinctNumbered (.ofText "file (1)".toList (by decide)) 8 ∧
      ¬ DistinctNumbered (.ofText "a.b\\c".toList (by decide)) 250 := by
  constructor
  · refine not_distinct_of_collide (.inr ⟨?_, ?_, ?_, "file".toList, 1, ?_⟩)
    · rw [BaseFileName.text_ofText]
      rfl
    · rw [BaseFileName.text_ofText]
      have hclean : cleanName "file (1)".toList = some "file (1)".toList := by decide
      exact cleanName_spec hclean
    · rw [BaseFileName.text_ofText]
      decide
    · rw [BaseFileName.stem, BaseFileName.text_ofText]
      decide
  · refine not_distinct_of_collide (.inl ⟨?_, ?_⟩)
    · rw [BaseFileName.ext, BaseFileName.text_ofText]
      decide
    · rw [BaseFileName.ext, BaseFileName.stem, BaseFileName.text_ofText]
      decide

end KDown
