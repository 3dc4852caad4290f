/-
KDown/SanitizeFilename.lean

File names from untrusted texts (`try_sanitize_filename` in io/sanitize.rs).

A text is cleaned in six steps, cut to the byte limit, and checked again.  What
the cleaning yields is a `CleanName`: no separator, control or illegal
character, no space or period at the end, no device name.  The cut keeps the
extension when it fits, and then the end of the name stays what it was.
Otherwise the name ends wherever the limit falls, and the second check does not
trim: `CutBehindTrailing` is the condition under which the name that is returned
ends in a space or a period.

* `sanitize_of_clean`: a clean name that fits is returned unchanged.
* `sanitize_safe_iff`: whatever is returned is a safe name, except under that
  condition.
-/
import KDown.JsonText
import KDown.PathPolicy
import KDown.TextScan

namespace KDown

open JsonText (size size_nil size_cons size_append)

/-! ### Paths of one component -/

/-- Split at the last occurrence of a character. -/
def rsplitOnce (c : Char) (cs : List Char) : Option (List Char × List Char) :=
  (splitOnce c cs.reverse).map fun p => (p.2.reverse, p.1.reverse)

theorem rsplitOnce_eq_some {c : Char} {cs l r : List Char} :
    rsplitOnce c cs = some (l, r) ↔ cs = l ++ c :: r ∧ c ∉ r := by
  rw [rsplitOnce, Option.map_eq_some_iff]
  constructor
  · rintro ⟨⟨a, b⟩, hsplit, heq⟩
    cases heq
    obtain ⟨hcs, hnot⟩ := splitOnce_eq_some.mp hsplit
    refine ⟨?_, fun h => hnot (List.mem_reverse.mp h)⟩
    rw [← List.reverse_reverse cs, hcs]
    simp
  · rintro ⟨rfl, hnot⟩
    refine ⟨(r.reverse, l.reverse), splitOnce_eq_some.mpr ⟨by simp, ?_⟩, by simp⟩
    exact fun h => hnot (List.mem_reverse.mp h)

/-- `Path::file_name`: the last component, if it is a name. -/
def pathFileName (path : List Char) : Option (List Char) :=
  match (pathComponents path).getLast? with
  | some (.normal name) => some name
  | _ => none

/-- Stem and extension of a file name.  A dot in front alone is no separator. -/
def fileStemExtension (file : List Char) : List Char × Option (List Char) :=
  if file = ['.', '.'] then (file, none)
  else
    match rsplitOnce '.' file with
    | none => (file, none)
    | some (before, after) => if before = [] then (file, none) else (before, some after)

/-- `Path::extension`. -/
def pathExtension (path : List Char) : Option (List Char) :=
  (pathFileName path).bind fun file => (fileStemExtension file).2

/-- `Path::file_stem`. -/
def pathFileStem (path : List Char) : Option (List Char) :=
  (pathFileName path).map fun file => (fileStemExtension file).1

/-- Exactly one `Normal` component. -/
def isSingleNormalComponent (name : List Char) : Bool :=
  match pathComponents name with
  | [.normal _] => true
  | _ => false

/-! ### The sanitizer -/

/-- The separators of both systems. -/
def isPathSeparator (c : Char) : Bool := c = '/' || c = '\\'

/-- `char::is_control`. -/
def isControl (c : Char) : Bool := c.toNat < 0x20 || (0x7f ≤ c.toNat && c.toNat ≤ 0x9f)

/-- Punctuation that Windows refuses. -/
def isIllegal (c : Char) : Bool := "<>:\"|?*".toList.contains c

/-- Characters that Windows refuses at the end. -/
def isTrailing (c : Char) : Bool := c = ' ' || c = '.'

/-- The names of devices. -/
def reservedBasenames : List String :=
  ["CON", "PRN", "AUX", "NUL", "COM1", "COM2", "COM3", "COM4", "COM5", "COM6", "COM7", "COM8",
    "COM9", "LPT1", "LPT2", "LPT3", "LPT4", "LPT5", "LPT6", "LPT7", "LPT8", "LPT9", "COM¹", "COM²",
    "COM³", "LPT¹", "LPT²", "LPT³"]

/-- Whether the part in front of the first dot is a device name. -/
def isReservedDeviceBasename (name : List Char) : Bool :=
  reservedBasenames.any fun reserved =>
    eqIgnoreAsciiCase reserved (String.ofList (name.takeWhile (· ≠ '.')))

/-- The longest beginning of at most so many bytes. -/
def takeBytes : ℕ → List Char → List Char
  | _, [] => []
  | limit, c :: cs => if c.utf8Size ≤ limit then c :: takeBytes (limit - c.utf8Size) cs else []

/-- Step 1: separators select the last component that is not empty. -/
def lastComponent (input : List Char) : Option (List Char) :=
  (input.splitOnP isPathSeparator).reverse.find? fun c => !c.isEmpty

/-- Steps 2 and 3: control characters are removed, illegal punctuation is
replaced. -/
def legalText (component : List Char) : List Char :=
  (component.filter fun c => !isControl c).map fun c => if isIllegal c then '_' else c

/-- Steps 4 to 6: the end is trimmed, and a device name is prefixed. -/
def cleanComponent (component : List Char) : Option (List Char) :=
  let trimmed := (legalText component).rdropWhile isTrailing
  if trimmed.isEmpty || trimmed.all (· = '.') then none
  else if isReservedDeviceBasename trimmed then some ('_' :: trimmed)
  else some trimmed

/-- Steps 1 to 6. -/
def cleanName (input : List Char) : Option (List Char) :=
  (lastComponent input).bind cleanComponent

/-- Step 7: cut to the limit; an extension that fits is kept. -/
def truncatePreservingExtension (candidate : List Char) (limit : ℕ) : Option (List Char) :=
  if size candidate ≤ limit then some candidate
  else
    let extLen := match pathExtension candidate with
      | some ext => size ext + 1
      | none => 0
    let stemPart :=
      if 0 < extLen ∧ extLen < limit then takeBytes (size candidate - extLen) candidate
      else candidate
    let suffix := candidate.drop stemPart.length
    let cut := takeBytes (min (limit - size suffix) (size stemPart)) stemPart
    if cut = [] ∧ suffix = [] then none else some (cut ++ suffix)

/-- Steps 8 and 9: the checks after the cut. -/
def recheckName (limit : ℕ) (candidate : List Char) : Option (List Char) :=
  if candidate.isEmpty || candidate.all (· = '.') then none
  else
    let named :=
      if isReservedDeviceBasename candidate then
        if limit < size ('_' :: candidate) then none else some ('_' :: candidate)
      else some candidate
    named.filter isSingleNormalComponent

/-- A safe single-component name of at most so many bytes. -/
def trySanitizeFilename (input : List Char) (limit : ℕ) : Option (List Char) :=
  if limit = 0 then none
  else
    (cleanName input).bind fun candidate =>
      (if limit < size candidate then truncatePreservingExtension candidate limit
        else some candidate).bind (recheckName limit)

/-! ### Cutting -/

theorem takeBytes_isPrefix (limit : ℕ) (cs : List Char) : takeBytes limit cs <+: cs := by
  induction cs generalizing limit with
  | nil => exact List.prefix_refl []
  | cons c cs ih =>
    rw [takeBytes]
    split_ifs
    · exact List.cons_prefix_cons.mpr ⟨rfl, ih _⟩
    · exact List.nil_prefix

theorem size_takeBytes (limit : ℕ) (cs : List Char) : size (takeBytes limit cs) ≤ limit := by
  induction cs generalizing limit with
  | nil => exact Nat.zero_le _
  | cons c cs ih =>
    rw [takeBytes]
    split_ifs with h
    · have hrest := ih (limit - c.utf8Size)
      rw [size_cons]
      omega
    · exact Nat.zero_le _

/-- A text that fits is not cut. -/
theorem takeBytes_append {a b : List Char} : takeBytes (size a) (a ++ b) = a ++ takeBytes 0 b := by
  induction a with
  | nil => rfl
  | cons c a ih =>
    rw [List.cons_append, takeBytes, size_cons, if_pos (by omega), Nat.add_sub_cancel, ih,
      List.cons_append]

theorem takeBytes_zero (cs : List Char) : takeBytes 0 cs = [] := by
  rcases cs with - | ⟨c, cs⟩
  · rfl
  · rw [takeBytes, if_neg (not_le.mpr c.utf8Size_pos)]

theorem takeBytes_min (limit : ℕ) (cs : List Char) :
    takeBytes (min limit (size cs)) cs = takeBytes limit cs := by
  induction cs generalizing limit with
  | nil => rfl
  | cons c cs ih =>
    rw [takeBytes, takeBytes, size_cons]
    by_cases h : c.utf8Size ≤ limit
    · have hsub : min limit (size cs + c.utf8Size) - c.utf8Size =
          min (limit - c.utf8Size) (size cs) := by omega
      rw [if_pos h, if_pos (by omega), hsub, ih]
    · rw [if_neg h, if_neg (by omega)]

/-! ### Clean names -/

/-- Characters of a file name. -/
structure NameChar (c : Char) : Prop where
  separator : isPathSeparator c = false
  control : isControl c = false
  legal : isIllegal c = false

theorem nameChar_underscore : NameChar '_' := ⟨by decide, by decide, by decide⟩

/-- What the cleaning yields. -/
structure CleanName (name : List Char) : Prop where
  chars : ∀ c ∈ name, NameChar c
  tail : ∃ c ∈ name.getLast?, isTrailing c = false
  notReserved : isReservedDeviceBasename name = false

theorem CleanName.ne_nil {name : List Char} (h : CleanName name) : name ≠ [] := by
  rintro rfl
  obtain ⟨c, hc, -⟩ := h.tail
  cases hc

theorem CleanName.not_dots {name : List Char} (h : CleanName name) :
    (name.isEmpty || name.all (· = '.')) = false := by
  obtain ⟨c, hc, htail⟩ := h.tail
  have hmem : c ∈ name := List.mem_of_getLast? hc
  rw [Bool.or_eq_false_iff, List.isEmpty_eq_false_iff, List.all_eq_false]
  refine ⟨h.ne_nil, c, hmem, ?_⟩
  rw [isTrailing, Bool.or_eq_false_iff] at htail
  simpa using htail.2

/-- No device name starts with an underscore or ends in a space. -/
theorem reserved_ends : ∀ reserved ∈ reservedBasenames,
    (reserved.toList.map Char.toLower).head? ≠ some '_' ∧
      (reserved.toList.map Char.toLower).getLast? ≠ some ' ' := by decide

theorem not_reserved_cons_underscore (name : List Char) :
    isReservedDeviceBasename ('_' :: name) = false := by
  rw [isReservedDeviceBasename, List.any_eq_false]
  intro reserved hmem heq
  simp only [eqIgnoreAsciiCase, decide_eq_true_eq, String.toList_ofList] at heq
  refine (reserved_ends reserved hmem).1 ?_
  rw [heq, List.takeWhile_cons_of_pos (by decide)]
  rfl

/-- A name without separators is one component unless it consists of dots. -/
theorem isSingleNormalComponent_of_nameChars {name : List Char} (h : ∀ c ∈ name, NameChar c)
    (hdots : (name.isEmpty || name.all (· = '.')) = false) :
    pathComponents name = [.normal name] := by
  have hslash : '/' ∉ name := fun hmem => by
    have hsep := (h '/' hmem).separator
    cases hsep
  rw [Bool.or_eq_false_iff, List.isEmpty_eq_false_iff, List.all_eq_false] at hdots
  obtain ⟨hne, c, hc, hcdot⟩ := hdots
  have hdot : name ≠ ['.'] := by
    rintro rfl
    simp at hc
    simp [hc] at hcdot
  have hdotdot : name ≠ ['.', '.'] := by
    rintro rfl
    simp at hc
    simp [hc] at hcdot
  rw [pathComponents, List.splitOn_eq_singleton hslash]
  simp [hne, hdot, segmentPart, hdotdot]

/-- A part of a split text is taken from the text and free of separators. -/
theorem mem_splitOnP {p : Char → Bool} {cs part : List Char} (h : part ∈ cs.splitOnP p) :
    part.Sublist cs ∧ ∀ c ∈ part, p c = false := by
  induction cs generalizing part with
  | nil =>
    simp at h
    simp [h]
  | cons c cs ih =>
    rw [List.splitOnP_cons_eq_if_modifyHead] at h
    split_ifs at h with hc
    · rcases List.mem_cons.mp h with rfl | h
      · simp
      · exact ⟨(ih h).1.cons c, (ih h).2⟩
    · rcases hsplit : cs.splitOnP p with - | ⟨first, rest⟩
      · exact absurd hsplit (List.splitOnP_ne_nil p cs)
      · rw [hsplit, List.modifyHead_cons] at h
        rcases List.mem_cons.mp h with rfl | h
        · obtain ⟨hsub, hfree⟩ := ih (hsplit ▸ List.mem_cons_self)
          refine ⟨hsub.cons_cons c, fun d hd => ?_⟩
          rcases List.mem_cons.mp hd with rfl | hd
          · exact Bool.eq_false_iff.mpr hc
          · exact hfree d hd
        · obtain ⟨hsub, hfree⟩ := ih (hsplit ▸ List.mem_cons_of_mem _ h)
          exact ⟨hsub.cons c, hfree⟩

theorem lastComponent_eq_some {input component : List Char}
    (h : lastComponent input = some component) :
    component.Sublist input ∧ ∀ c ∈ component, isPathSeparator c = false :=
  mem_splitOnP (List.mem_reverse.mp (List.mem_of_find?_eq_some h))

theorem nameChar_of_mem_legalText {component : List Char}
    (h : ∀ c ∈ component, isPathSeparator c = false) : ∀ c ∈ legalText component, NameChar c := by
  intro c hc
  obtain ⟨d, hd, rfl⟩ := List.mem_map.mp hc
  obtain ⟨hmem, hvisible⟩ := List.mem_filter.mp hd
  split_ifs with hill
  · exact nameChar_underscore
  · exact ⟨h d hmem, by simpa using hvisible, Bool.eq_false_iff.mpr hill⟩

theorem legalText_of_nameChars {name : List Char} (h : ∀ c ∈ name, NameChar c) :
    legalText name = name := by
  have hvisible : name.filter (fun c => !isControl c) = name :=
    List.filter_eq_self.mpr fun c hc => by simp [(h c hc).control]
  have hid : ∀ c ∈ name, (if isIllegal c then '_' else c) = id c := fun c hc =>
    if_neg (by simp [(h c hc).legal])
  rw [legalText, hvisible, List.map_congr_left hid, List.map_id]

/-- Without separators the whole text is the component. -/
theorem lastComponent_of_free {cs : List Char} (h : ∀ c ∈ cs, isPathSeparator c = false)
    (hne : cs ≠ []) : lastComponent cs = some cs := by
  have hempty : cs.isEmpty = false := List.isEmpty_eq_false_iff.mpr hne
  rw [lastComponent, List.splitOnP_eq_singleton h, List.reverse_singleton,
    List.find?_cons_of_pos (by simp [hempty])]

/-- **A sanitized name is clean.** -/
theorem cleanName_spec {input name : List Char} (h : cleanName input = some name) :
    CleanName name := by
  obtain ⟨component, hfind, h⟩ := Option.bind_eq_some_iff.mp h
  have hcomponent : ∀ c ∈ component, isPathSeparator c = false := (lastComponent_eq_some hfind).2
  let legal : List Char := legalText component
  have hpre : legal.rdropWhile isTrailing <+: legal := List.rdropWhile_prefix isTrailing legal
  have htrimmed : ∀ c ∈ legal.rdropWhile isTrailing, NameChar c := fun c hc =>
    nameChar_of_mem_legalText hcomponent c (hpre.subset hc)
  rw [cleanComponent] at h
  split_ifs at h with hempty hreserved
  · -- a device name is prefixed
    rw [Bool.or_eq_true, not_or, List.isEmpty_iff] at hempty
    cases h
    refine ⟨fun c hc => ?_, ?_, not_reserved_cons_underscore _⟩
    · rcases List.mem_cons.mp hc with rfl | hc
      · exact nameChar_underscore
      · exact htrimmed c hc
    · rw [List.getLast?_cons_of_ne_nil hempty.1]
      exact ⟨_, List.getLast?_eq_getLast_of_ne_nil hempty.1,
        Bool.eq_false_iff.mpr (List.rdropWhile_last_not isTrailing legal hempty.1)⟩
  · rw [Bool.or_eq_true, not_or, List.isEmpty_iff] at hempty
    cases h
    exact ⟨htrimmed, ⟨_, List.getLast?_eq_getLast_of_ne_nil hempty.1,
      Bool.eq_false_iff.mpr (List.rdropWhile_last_not isTrailing legal hempty.1)⟩,
      Bool.eq_false_iff.mpr hreserved⟩

/-- A clean name is not changed by the cleaning. -/
theorem cleanName_of_clean {name : List Char} (h : CleanName name) : cleanName name = some name := by
  have htrimmed : name.rdropWhile isTrailing = name := by
    obtain ⟨c, hc, htail⟩ := h.tail
    refine List.rdropWhile_eq_self_iff.mpr fun hne => ?_
    rw [List.getLast?_eq_getLast_of_ne_nil hne] at hc
    cases hc
    simp [htail]
  rw [cleanName, lastComponent_of_free (fun c hc => (h.chars c hc).separator) h.ne_nil,
    Option.bind_some, cleanComponent, legalText_of_nameChars h.chars, htrimmed]
  simp only [h.not_dots, h.notReserved, Bool.false_eq_true, if_false]

theorem recheckName_of_clean {name : List Char} (h : CleanName name) (limit : ℕ) :
    recheckName limit name = some name := by
  have hsingle : isSingleNormalComponent name = true := by
    rw [isSingleNormalComponent, isSingleNormalComponent_of_nameChars h.chars h.not_dots]
  rw [recheckName, h.not_dots, if_neg (by decide), h.notReserved]
  simp [Option.filter_some, hsingle]

/-- **A clean name that fits is returned unchanged.** -/
theorem sanitize_of_clean {name : List Char} (h : CleanName name) {limit : ℕ}
    (hfits : size name ≤ limit) : trySanitizeFilename name limit = some name := by
  have hpos : 0 < size name := by
    rcases name with - | ⟨c, cs⟩
    · exact absurd rfl h.ne_nil
    · rw [size_cons]
      have := c.utf8Size_pos
      omega
  rw [trySanitizeFilename, if_neg (by omega), cleanName_of_clean h, Option.bind_some,
    if_neg (by omega), Option.bind_some, recheckName_of_clean h]

/-! ### Safe names -/

/-- What a sanitized name is promised to be. -/
structure SafeName (limit : ℕ) (name : List Char) : Prop where
  nonempty : name ≠ []
  fits : size name ≤ limit
  single : pathComponents name = [.normal name]
  chars : ∀ c ∈ name, NameChar c
  notReserved : isReservedDeviceBasename name = false
  tail : ∀ c ∈ name.getLast?, isTrailing c = false
  stable : trySanitizeFilename name limit = some name

theorem CleanName.safe {name : List Char} (h : CleanName name) {limit : ℕ}
    (hfits : size name ≤ limit) : SafeName limit name where
  nonempty := h.ne_nil
  fits := hfits
  single := isSingleNormalComponent_of_nameChars h.chars h.not_dots
  chars := h.chars
  notReserved := h.notReserved
  tail := by
    obtain ⟨c, hc, htail⟩ := h.tail
    rintro d hd
    rw [hc] at hd
    cases hd
    exact htail
  stable := sanitize_of_clean h hfits

/-- The second check on a cut name: the name itself, or prefixed. -/
theorem recheckName_eq_some {limit : ℕ} {candidate name : List Char}
    (h : recheckName limit candidate = some name) (hfits : size candidate ≤ limit) :
    (candidate.isEmpty || candidate.all (· = '.')) = false ∧ size name ≤ limit ∧
      isReservedDeviceBasename name = false ∧ (name = candidate ∨ name = '_' :: candidate) := by
  rw [recheckName] at h
  split_ifs at h with hdots hreserved hover
  · cases h
  · obtain ⟨h, -⟩ := Option.filter_eq_some_iff.mp h
    cases h
    exact ⟨Bool.eq_false_iff.mpr hdots, not_lt.mp hover, not_reserved_cons_underscore candidate,
      .inr rfl⟩
  · obtain ⟨h, -⟩ := Option.filter_eq_some_iff.mp h
    cases h
    exact ⟨Bool.eq_false_iff.mpr hdots, hfits, Bool.eq_false_iff.mpr hreserved, .inl rfl⟩

/-- A cut name with a good end is clean after the second check. -/
theorem safe_of_recheck {limit : ℕ} {candidate name : List Char}
    (h : recheckName limit candidate = some name) (hfits : size candidate ≤ limit)
    (hchars : ∀ c ∈ candidate, NameChar c)
    (htail : ∀ c ∈ candidate.getLast?, isTrailing c = false) : SafeName limit name := by
  obtain ⟨hdots, hname, hreserved, hcases⟩ := recheckName_eq_some h hfits
  have hne : candidate ≠ [] := by
    rintro rfl
    cases hdots
  have hlast : candidate.getLast? = some (candidate.getLast hne) :=
    List.getLast?_eq_getLast_of_ne_nil hne
  refine CleanName.safe ⟨?_, ?_, hreserved⟩ hname
  · rcases hcases with rfl | rfl
    · exact hchars
    · intro c hc
      rcases List.mem_cons.mp hc with rfl | hc
      · exact nameChar_underscore
      · exact hchars c hc
  · refine ⟨candidate.getLast hne, ?_, htail _ hlast⟩
    rcases hcases with rfl | rfl
    · exact hlast
    · rw [List.getLast?_cons_of_ne_nil hne]
      exact hlast

/-! ### The cut -/

/-- The length of the extension with its dot. -/
def extensionLen (name : List Char) : ℕ :=
  match pathExtension name with
  | some ext => size ext + 1
  | none => 0

/-- The extension, with its dot, is shorter than the limit. -/
def ExtensionFits (limit : ℕ) (name : List Char) : Prop :=
  0 < extensionLen name ∧ extensionLen name < limit

/-- The name is cut without its extension, behind a space or a period, and what
is left is more than dots. -/
def CutBehindTrailing (input : List Char) (limit : ℕ) : Prop :=
  ∃ candidate, cleanName input = some candidate ∧ limit < size candidate ∧
    ¬ ExtensionFits limit candidate ∧
    (∃ c ∈ (takeBytes limit candidate).getLast?, isTrailing c = true) ∧
    ∃ c ∈ takeBytes limit candidate, c ≠ '.'

theorem pathFileName_of_clean {name : List Char} (h : CleanName name) :
    pathFileName name = some name := by
  rw [pathFileName, isSingleNormalComponent_of_nameChars h.chars h.not_dots]
  rfl

/-- A clean name with an extension is a stem, a dot and the extension. -/
theorem extension_of_clean {name : List Char} (h : CleanName name) (hext : 0 < extensionLen name) :
    ∃ stem ext, name = stem ++ '.' :: ext ∧ '.' ∉ ext ∧ stem ≠ [] ∧ ext ≠ [] ∧
      extensionLen name = size ext + 1 := by
  rw [extensionLen, pathExtension, pathFileName_of_clean h, Option.bind_some] at hext ⊢
  rw [fileStemExtension] at hext ⊢
  split_ifs at hext ⊢ with hdots
  · cases hext
  rcases hsplit : rsplitOnce '.' name with - | ⟨before, after⟩ <;> rw [hsplit] at hext
  · cases hext
  simp only at hext ⊢
  split_ifs at hext ⊢ with hbefore
  · cases hext
  obtain ⟨hname, hfree⟩ := rsplitOnce_eq_some.mp hsplit
  refine ⟨before, after, hname, hfree, hbefore, ?_, rfl⟩
  -- an empty extension would leave a period at the end
  rintro rfl
  obtain ⟨c, hc, htail⟩ := h.tail
  rw [hname, List.getLast?_concat] at hc
  cases hc
  cases htail

theorem truncate_eq {name stemPart : List Char} {limit : ℕ} (hover : limit < size name)
    (hstem : (if 0 < extensionLen name ∧ extensionLen name < limit then
      takeBytes (size name - extensionLen name) name else name) = stemPart) :
    truncatePreservingExtension name limit =
      if takeBytes (limit - size (name.drop stemPart.length)) stemPart = [] ∧
        name.drop stemPart.length = [] then none
      else some (takeBytes (limit - size (name.drop stemPart.length)) stemPart ++
        name.drop stemPart.length) := by
  rw [truncatePreservingExtension, if_neg (by omega), ← takeBytes_min, ← hstem]
  rfl

/-- A name with an extension that fits keeps it. -/
theorem truncate_extension {stem ext : List Char} {limit : ℕ} (hstem : stem ≠ []) (hext : ext ≠ [])
    (hfree : '.' ∉ ext) (hfile : pathFileName (stem ++ '.' :: ext) = some (stem ++ '.' :: ext))
    (hover : limit < size (stem ++ '.' :: ext)) (hfits : size ext + 1 < limit) :
    truncatePreservingExtension (stem ++ '.' :: ext) limit =
      some (takeBytes (limit - (size ext + 1)) stem ++ '.' :: ext) := by
  have hdots : stem ++ '.' :: ext ≠ ['.', '.'] := by
    intro h
    have hlen := congrArg List.length h
    have hpos := List.length_pos_of_ne_nil hstem
    have hpos' := List.length_pos_of_ne_nil hext
    rw [List.length_append, List.length_cons, List.length_cons, List.length_singleton] at hlen
    omega
  have hsplit : rsplitOnce '.' (stem ++ '.' :: ext) = some (stem, ext) :=
    rsplitOnce_eq_some.mpr ⟨rfl, hfree⟩
  have hlen : extensionLen (stem ++ '.' :: ext) = size ext + 1 := by
    rw [extensionLen, pathExtension, hfile, Option.bind_some, fileStemExtension, if_neg hdots,
      hsplit]
    simp only [if_neg hstem]
  have hdot : size ('.' :: ext) = size ext + 1 := rfl
  have hpart : (if 0 < extensionLen (stem ++ '.' :: ext) ∧
      extensionLen (stem ++ '.' :: ext) < limit then
      takeBytes (size (stem ++ '.' :: ext) - extensionLen (stem ++ '.' :: ext)) (stem ++ '.' :: ext)
      else stem ++ '.' :: ext) = stem := by
    rw [hlen, if_pos ⟨Nat.succ_pos _, hfits⟩, size_append, hdot, Nat.add_sub_cancel,
      takeBytes_append, takeBytes_zero, List.append_nil]
  rw [truncate_eq hover hpart, List.drop_left, hdot, if_neg (by simp)]

theorem truncate_of_fits {name : List Char} (h : CleanName name) {limit : ℕ}
    (hover : limit < size name) (hfits : ExtensionFits limit name) :
    ∃ cut, truncatePreservingExtension name limit = some cut ∧ size cut ≤ limit ∧
      (∀ c ∈ cut, c ∈ name) ∧ cut.getLast? = name.getLast? := by
  obtain ⟨stem, ext, rfl, hfree, hstem, hext, hlen⟩ := extension_of_clean h hfits.1
  have hlimit : size ext + 1 < limit := hlen ▸ hfits.2
  have hdot : size ('.' :: ext) = size ext + 1 := rfl
  refine ⟨_, truncate_extension hstem hext hfree (pathFileName_of_clean h) hover hlimit, ?_, ?_, ?_⟩
  · have hcut := size_takeBytes (limit - (size ext + 1)) stem
    rw [size_append, hdot]
    omega
  · intro c hc
    rcases List.mem_append.mp hc with hc | hc
    · exact List.mem_append_left _ ((takeBytes_isPrefix _ _).subset hc)
    · exact List.mem_append_right _ hc
  · rw [List.getLast?_append_of_ne_nil _ (List.cons_ne_nil _ _),
      List.getLast?_append_of_ne_nil _ (List.cons_ne_nil _ _)]

theorem truncate_of_not_fits {name : List Char} {limit : ℕ} (hover : limit < size name)
    (hfits : ¬ ExtensionFits limit name) :
    truncatePreservingExtension name limit =
      if takeBytes limit name = [] then none else some (takeBytes limit name) := by
  have hpart : (if 0 < extensionLen name ∧ extensionLen name < limit then
      takeBytes (size name - extensionLen name) name else name) = name := if_neg hfits
  rw [truncate_eq hover hpart, List.drop_length]
  simp

/-- A beginning of a name that ends in a space or a period is no device name if
the name is none. -/
theorem not_reserved_of_cut {cut name : List Char} (hpre : cut <+: name)
    (hname : isReservedDeviceBasename name = false)
    (htail : ∃ c ∈ cut.getLast?, isTrailing c = true) : isReservedDeviceBasename cut = false := by
  by_cases hdot : '.' ∈ cut
  · -- the part in front of the first dot is the same
    obtain ⟨rest, rfl⟩ := hpre
    have hstem : (cut ++ rest).takeWhile (· ≠ '.') = cut.takeWhile (· ≠ '.') := by
      obtain ⟨a, b, rfl, ha⟩ : ∃ a b, cut = a ++ '.' :: b ∧ '.' ∉ a := by
        rcases hsplit : splitOnce '.' cut with - | ⟨a, b⟩
        · exact absurd hdot (splitOnce_eq_none.mp hsplit)
        · exact ⟨a, b, splitOnce_eq_some.mp hsplit⟩
      have hfree : ∀ c ∈ a, decide (c ≠ '.') = true := fun c hc => by
        simpa using fun heq : c = '.' => ha (heq ▸ hc)
      rw [List.append_assoc, List.takeWhile_append_of_pos hfree,
        List.takeWhile_append_of_pos hfree, List.cons_append]
      simp
    rw [isReservedDeviceBasename, ← hstem]
    exact hname
  · -- otherwise it ends in a space, and no device name does
    obtain ⟨c, hc, htrailing⟩ := htail
    have hspace : c = ' ' := by
      rw [isTrailing, Bool.or_eq_true, decide_eq_true_eq, decide_eq_true_eq] at htrailing
      exact htrailing.resolve_right fun heq => hdot (heq ▸ List.mem_of_getLast? hc)
    have hwhole : cut.takeWhile (· ≠ '.') = cut :=
      List.takeWhile_eq_self_iff.mpr fun d hd => by
        simpa using fun heq : d = '.' => hdot (heq ▸ hd)
    rw [isReservedDeviceBasename, List.any_eq_false, hwhole]
    intro reserved hmem heq
    simp only [eqIgnoreAsciiCase, decide_eq_true_eq, String.toList_ofList] at heq
    refine (reserved_ends reserved hmem).2 ?_
    rw [heq, List.getLast?_map, Option.mem_def.mp hc, hspace]
    rfl

/-- **Sanitized names are safe.**  Every name that is returned is safe exactly
when the cut does not fall behind a space or a period. -/
theorem sanitize_safe_iff (input : List Char) (limit : ℕ) :
    (∀ name, trySanitizeFilename input limit = some name → SafeName limit name) ↔
      ¬ CutBehindTrailing input limit := by
  constructor
  · -- a name cut there is returned as it is
    rintro hsafe ⟨candidate, hclean, hover, hfits, htail, c, hc, hdot⟩
    have hcand := cleanName_spec hclean
    have hpre := takeBytes_isPrefix limit candidate
    have htruncate := truncate_of_not_fits hover hfits
    rw [if_neg (List.ne_nil_of_mem hc)] at htruncate
    have hlimit : limit ≠ 0 := by
      rintro rfl
      rw [takeBytes_zero] at hc
      cases hc
    generalize takeBytes limit candidate = cut at *
    have hdots : (cut.isEmpty || cut.all (· = '.')) = false := by
      rw [Bool.or_eq_false_iff, List.isEmpty_eq_false_iff, List.all_eq_false]
      exact ⟨List.ne_nil_of_mem hc, c, hc, by simpa using hdot⟩
    have hchars : ∀ c ∈ cut, NameChar c := fun c hc => hcand.chars c (hpre.subset hc)
    have hreserved : isReservedDeviceBasename cut = false :=
      not_reserved_of_cut hpre hcand.notReserved htail
    have hsingle : isSingleNormalComponent cut = true := by
      rw [isSingleNormalComponent, isSingleNormalComponent_of_nameChars hchars hdots]
    have hresult : trySanitizeFilename input limit = some cut := by
      rw [trySanitizeFilename, if_neg hlimit, hclean, Option.bind_some, if_pos hover, htruncate,
        Option.bind_some, recheckName, hdots, if_neg (by decide), hreserved]
      simp [Option.filter_some, hsingle]
    obtain ⟨d, hd, htrailing⟩ := htail
    rw [(hsafe cut hresult).tail d hd] at htrailing
    cases htrailing
  · intro hnot name hname
    rw [trySanitizeFilename] at hname
    split_ifs at hname with hlimit
    obtain ⟨candidate, hclean, hname⟩ := Option.bind_eq_some_iff.mp hname
    have hcand := cleanName_spec hclean
    split_ifs at hname with hover
    · obtain ⟨cut, hcut, hname⟩ := Option.bind_eq_some_iff.mp hname
      by_cases hfits : ExtensionFits limit candidate
      · -- the end of the name is kept
        obtain ⟨cut', hcut', hsize, hmem, hlast⟩ := truncate_of_fits hcand hover hfits
        rw [hcut] at hcut'
        cases hcut'
        refine safe_of_recheck hname hsize (fun c hc => hcand.chars c (hmem c hc)) ?_
        obtain ⟨d, hd, htail⟩ := hcand.tail
        intro c hc
        rw [hlast, hd] at hc
        cases hc
        exact htail
      · rw [truncate_of_not_fits hover hfits] at hcut
        split_ifs at hcut with hempty
        cases hcut
        have hpre := takeBytes_isPrefix limit candidate
        have hsize := size_takeBytes limit candidate
        refine safe_of_recheck hname hsize (fun c hc => hcand.chars c (hpre.subset hc)) ?_
        intro c hc
        by_contra htrailing
        rw [Bool.not_eq_false] at htrailing
        -- the name is not all dots, or the second check would have refused it
        have hdots := (recheckName_eq_some hname hsize).1
        rw [Bool.or_eq_false_iff, List.all_eq_false] at hdots
        obtain ⟨-, d, hd, hdot⟩ := hdots
        exact hnot ⟨candidate, hclean, hover, hfits, ⟨c, hc, htrailing⟩, d, hd,
          by simpa using hdot⟩
    · rw [Option.bind_some, recheckName_of_clean hcand] at hname
      cases hname
      exact hcand.safe (not_lt.mp hover)

/-- `abc def`, cut to four bytes. -/
theorem sanitize_ends_in_space :
    trySanitizeFilename "abc def".toList 4 = some "abc ".toList ∧
      ¬ SafeName 4 "abc ".toList := by
  refine ⟨by decide +kernel, fun h => ?_⟩
  have htail : isTrailing ' ' = false := h.tail ' ' (by decide)
  cases htail

end KDown
