/-
KDown/DirectoryTarget.lean

The name of a download whose caller has chosen a directory (job/naming.rs).

The name comes from the response headers, or from the last segment of a URL, and
whoever answers the request writes both.  Each candidate goes through the
sanitizer; the first that survives it is taken, and the caller's fallback where
none does.  Under automatic renaming the numbered siblings of that name go
through it as well.

`sanitize_contained` is what the sanitizer keeps of its promise even where the
cut falls behind a space.  From it `directory_target_contained`: whatever the
headers and the URLs say, the output, its partial output and every sibling are
entries of the directory itself, with names that a file system can hold.

The URL parser is a parameter.
-/
import KDown.DestinationLease
import KDown.RenameCandidates
import KDown.Publish

namespace KDown

open JsonText (size size_nil size_cons size_append)

/-! ### Names as bytes -/

/-- A byte of a character is none of ASCII unless the character is. -/
theorem char_of_byte {c : Char} {b : UInt8} (hb : b.toNat < 128)
    (h : b ∈ String.utf8EncodeChar c) : c.toNat = b.toNat := by
  by_cases hc : c.toNat < 128
  · rw [utf8EncodeChar_ascii hc, List.mem_singleton] at h
    rw [h, UInt8.toNat_ofNat_of_lt' (by show c.toNat < 256; omega)]
  · have hlow : ¬ c.val ≤ 0x7f := by
      rw [UInt32.le_iff_toNat_le]
      show ¬ c.toNat ≤ 127
      omega
    have hlead : ∀ (x k : UInt8), 128 ≤ k.toNat → b ≠ x ||| k := by
      rintro x k hk rfl
      have hle : k.toNat ≤ (x ||| k).toNat := by
        rw [UInt8.toNat_or]
        exact Nat.right_le_or
      omega
    rw [String.utf8EncodeChar_eq_utf8EncodeCharFast, String.utf8EncodeCharFast] at h
    rw [if_neg hlow] at h
    split_ifs at h
    · rcases List.mem_cons.mp h with h | h
      · exact absurd h (hlead _ _ (by decide))
      · exact absurd (List.mem_singleton.mp h) (hlead _ _ (by decide))
    · rcases List.mem_cons.mp h with h | h
      · exact absurd h (hlead _ _ (by decide))
      rcases List.mem_cons.mp h with h | h
      · exact absurd h (hlead _ _ (by decide))
      · exact absurd (List.mem_singleton.mp h) (hlead _ _ (by decide))
    · rcases List.mem_cons.mp h with h | h
      · exact absurd h (hlead _ _ (by decide))
      rcases List.mem_cons.mp h with h | h
      · exact absurd h (hlead _ _ (by decide))
      rcases List.mem_cons.mp h with h | h
      · exact absurd h (hlead _ _ (by decide))
      · exact absurd (List.mem_singleton.mp h) (hlead _ _ (by decide))

theorem mem_of_byte {cs : List Char} {b : UInt8} (hb : b.toNat < 128) (h : b ∈ utf8Bytes cs) :
    ∃ c ∈ cs, c.toNat = b.toNat := by
  obtain ⟨c, hc, hmem⟩ := List.mem_flatMap.mp h
  exact ⟨c, hc, char_of_byte hb hmem⟩

/-- A name that is no dots and has no separator in it is one component. -/
theorem components_single {name : OsStr} (hsep : separator ∉ name) (hne : name ≠ [])
    (hdot : name ≠ ascii ['.']) (hdots : name ≠ ascii ['.', '.']) :
    components name = [.normal name] := by
  have hfront : frontOf [name] = [] := by
    unfold frontOf
    split
    · next heq => cases (List.cons.inj heq).2
    · next first _ heq =>
      rw [if_neg]
      rw [← (List.cons.inj heq).1]
      exact hdot
    · rfl
  have hpart : componentOf name = some (.normal name) := by
    rw [componentOf, if_neg (not_or.mpr ⟨hne, hdot⟩), if_neg hdots]
  rw [components, List.splitOn_eq_singleton hsep, hfront, List.filterMap_cons, hpart]
  rfl

theorem join_of_single {name : OsStr} (h : components name = [.normal name]) (path : Path) :
    Path.join path name = path ++ [.normal name] := by
  rw [Path.join, h]
  cases path <;> simp

/-! ### What the sanitizer always keeps -/

/-- A name for an entry of a directory: one component of at most so many bytes,
free of separators and control characters and no device name.  It may end in a
space or a period. -/
structure ContainedName (limit : ℕ) (name : List Char) : Prop where
  chars : ∀ c ∈ name, NameChar c
  notDots : (name.isEmpty || name.all (· = '.')) = false
  fits : size name ≤ limit
  notReserved : isReservedDeviceBasename name = false

/-- **Every name that is returned is contained.** -/
theorem sanitize_contained {input name : List Char} {limit : ℕ}
    (h : trySanitizeFilename input limit = some name) : ContainedName limit name := by
  rw [trySanitizeFilename] at h
  split_ifs at h
  obtain ⟨candidate, hclean, h⟩ := Option.bind_eq_some_iff.mp h
  have hcand := cleanName_spec hclean
  split_ifs at h with hover
  · obtain ⟨cut, hcut, h⟩ := Option.bind_eq_some_iff.mp h
    have hpart : size cut ≤ limit ∧ ∀ c ∈ cut, c ∈ candidate := by
      by_cases hfits : ExtensionFits limit candidate
      · obtain ⟨cut', hcut', hsize, hmem, -⟩ := truncate_of_fits hcand hover hfits
        rw [hcut] at hcut'
        cases hcut'
        exact ⟨hsize, hmem⟩
      · rw [truncate_of_not_fits hover hfits] at hcut
        split_ifs at hcut
        cases hcut
        exact ⟨size_takeBytes limit candidate,
          fun c hc => (takeBytes_isPrefix limit candidate).subset hc⟩
    obtain ⟨hdots, hsize, hreserved, hcases⟩ := recheckName_eq_some h hpart.1
    have hchars : ∀ c ∈ cut, NameChar c := fun c hc => hcand.chars c (hpart.2 c hc)
    rcases hcases with rfl | rfl
    · exact ⟨hchars, hdots, hsize, hreserved⟩
    · refine ⟨fun c hc => ?_, by simp, hsize, hreserved⟩
      rcases List.mem_cons.mp hc with rfl | hc
      · exact nameChar_underscore
      · exact hchars c hc
  · rw [Option.bind_some, recheckName_of_clean hcand] at h
    cases h
    exact ⟨hcand.chars, hcand.not_dots, not_lt.mp hover, hcand.notReserved⟩

namespace ContainedName

variable {limit : ℕ} {name : List Char}

theorem ne_nil (h : ContainedName limit name) : name ≠ [] := by
  rintro rfl
  cases h.notDots

theorem separator_notMem (h : ContainedName limit name) : separator ∉ utf8Bytes name := by
  intro hmem
  obtain ⟨c, hc, hbyte⟩ := mem_of_byte (by decide) hmem
  have hslash : c = '/' := Char.toNat_inj.mp hbyte
  have hsep := (h.chars c hc).separator
  rw [hslash] at hsep
  cases hsep

/-- The name as an entry. -/
theorem components_eq (h : ContainedName limit name) :
    components (utf8Bytes name) = [.normal (utf8Bytes name)] := by
  have hdots : ∀ text : List Char, text.all (· = '.') = true → utf8Bytes name ≠ utf8Bytes text := by
    intro text htext heq
    have hname := h.notDots
    rw [utf8Bytes_inj heq, htext, Bool.or_true] at hname
    cases hname
  exact components_single h.separator_notMem (hdots [] rfl) (hdots ['.'] rfl) (hdots ['.', '.'] rfl)

/-- The name of its partial output as an entry. -/
theorem components_part (h : ContainedName limit name) :
    components (utf8Bytes name ++ partSuffix) = [.normal (utf8Bytes name ++ partSuffix)] := by
  refine components_name (fun hmem => ?_) ?_
  · rcases List.mem_append.mp hmem with hmem | hmem
    · exact h.separator_notMem hmem
    · exact absurd hmem (by decide)
  · rw [List.length_append]
    exact Nat.lt_add_left _ (by decide)

end ContainedName

/-! ### The directory target -/

/-- The name where nothing else yields one. -/
def defaultFallbackFilename : List Char := "download".toList

/-- The byte limit of a component, less the suffix of the partial output. -/
def maxFinalBasenameBytes : ℕ := 250

/-- One byte of the stem and the longest suffix. -/
def renameMinCapBytes : ℕ := 7

/-- What a caller may choose of the derived name. -/
structure DirectoryOptions where
  fallback : List Char
  maxFilenameBytes : ℕ

/-- What a probe contributes to the name. -/
structure NameSources where
  filenameHint : Option (List Char)
  plainFilenameHint : Option (List Char)
  finalUrl : List Char

/-- Before any network activity.  `answer` is what the file system says of the
directory. -/
def validateDirectoryTarget (answer : Except String Bool) (display : String)
    (debug : List Char → String) (options : DirectoryOptions) (overwrite : OverwritePolicy) :
    Except DownloadError Unit :=
  match answer with
  | .error e =>
      .error (.configuration s!"directory target {display} is not an existing directory: {e}")
  | .ok false => .error (.configuration s!"directory target {display} is not a directory")
  | .ok true =>
      let cap := options.maxFilenameBytes
      let len := size options.fallback
      if options.fallback = [] ∨
          trySanitizeFilename options.fallback cap ≠ some options.fallback then
        let fallback := debug options.fallback
        .error (.configuration (s!"fallback filename {fallback} is not an unchanged single " ++
          "normal component within the byte cap"))
      else if maxFinalBasenameBytes < cap ∨ cap < len ∨
          overwrite = .rename ∧ cap < renameMinCapBytes then
        let low := max (max cap len) (if overwrite = .rename then renameMinCapBytes else len)
        .error (.configuration (s!"max_filename_bytes {cap} must be within " ++
          s!"[{low}, {maxFinalBasenameBytes}] for this request"))
      else .ok ()

/-- Decode the escapes of a segment once; a malformed one rejects it. -/
def percentDecodeOnce (segment : List Char) : Option (List Char) :=
  (percentDecodeStrict (utf8Bytes segment)).map toStringLossy

section Resolve

-- the path of a URL, if it parses
variable (uriPath : List Char → Option (List Char))

/-- The last segment of a URL.  The one in front of a closing slash is not taken,
and neither is one that decodes to a separator. -/
def urlPathBasename (url : List Char) : Option (List Char) :=
  (uriPath url).bind fun path =>
    if path.getLast? = some '/' then none
    else
      let segment := match rsplitOnce '/' path with
        | some (_, last) => last
        | none => path
      if segment = [] then none
      else
        (percentDecodeOnce segment).filter fun decoded =>
          !decoded.contains '/' && !decoded.contains '\\'

/-- The first candidate to survive: the hints of the header, the final and the
original URL, and the fallback. -/
def resolveDirectoryBasename (sources : NameSources) (originalUrl : List Char)
    (options : DirectoryOptions) : List Char :=
  let cap := options.maxFilenameBytes
  let hints := [sources.filenameHint, sources.plainFilenameHint].reduceOption
  match hints.findSome? fun raw => trySanitizeFilename raw cap with
  | some name => name
  | none =>
      match [sources.finalUrl, originalUrl].findSome? fun url =>
        (urlPathBasename uriPath url).bind fun raw => trySanitizeFilename raw cap with
      | some name => name
      | none => options.fallback

end Resolve

variable {uriPath : List Char → Option (List Char)} {answer : Except String Bool} {display : String}
  {debug : List Char → String} {options : DirectoryOptions} {overwrite : OverwritePolicy}

theorem validateDirectoryTarget_ok
    (h : validateDirectoryTarget answer display debug options overwrite = .ok ()) :
    answer = .ok true ∧
      trySanitizeFilename options.fallback options.maxFilenameBytes = some options.fallback ∧
      options.maxFilenameBytes ≤ maxFinalBasenameBytes := by
  rcases answer with e | (- | -)
  · cases h
  · cases h
  · rw [validateDirectoryTarget] at h
    dsimp only at h
    split_ifs at h with hfallback hcap
    rw [not_or, not_not] at hfallback
    rw [not_or, not_lt] at hcap
    exact ⟨rfl, hfallback.2, hcap.1⟩

/-- Every name goes through the sanitizer, the fallback when it is validated. -/
theorem resolveDirectoryBasename_contained (sources : NameSources) (originalUrl : List Char)
    (hfallback : trySanitizeFilename options.fallback options.maxFilenameBytes =
      some options.fallback) :
    ContainedName options.maxFilenameBytes
      (resolveDirectoryBasename uriPath sources originalUrl options) := by
  rw [resolveDirectoryBasename]
  split
  · next name hhint =>
    obtain ⟨_, raw, _, _, hname, _⟩ := List.findSome?_eq_some_iff.mp hhint
    exact sanitize_contained hname
  · split
    · next name hurl =>
      obtain ⟨_, url, _, _, hname, _⟩ := List.findSome?_eq_some_iff.mp hurl
      obtain ⟨raw, -, hraw⟩ := Option.bind_eq_some_iff.mp hname
      exact sanitize_contained hraw
    · exact sanitize_contained hfallback

/-- An entry of the directory, with room for its partial output beside it. -/
structure DirectEntry (directory : Path) (name : OsStr) : Prop where
  path : directory.join name = directory ++ [.normal name]
  partPath : Path.withFileName (directory ++ [.normal name]) (name ++ partSuffix) =
    directory ++ [.normal (name ++ partSuffix)]
  fits : (name ++ partSuffix).length ≤ 255

theorem ContainedName.direct {limit : ℕ} {name : List Char} (h : ContainedName limit name)
    (hlimit : limit ≤ maxFinalBasenameBytes) (directory : Path) :
    DirectEntry directory (utf8Bytes name) where
  path := join_of_single h.components_eq directory
  partPath := by
    rw [Path.withFileName, Path.fileName_append, Option.isSome_some, if_pos rfl,
      List.dropLast_concat]
    exact join_of_single h.components_part directory
  fits := by
    have hsize := h.fits
    have hsuffix : partSuffix.length = 5 := rfl
    rw [List.length_append, length_utf8Bytes, hsuffix]
    rw [maxFinalBasenameBytes] at hlimit
    omega

/-- **A directory target stays in its directory**: whatever the headers and the
URLs say, the output is an entry of the directory itself, and so is its partial
output, and so are those of every numbered sibling. -/
theorem directory_target_contained (sources : NameSources) (originalUrl : List Char)
    (directory : Path)
    (hvalid : validateDirectoryTarget answer display debug options overwrite = .ok ()) :
    DirectEntry directory
        (utf8Bytes (resolveDirectoryBasename uriPath sources originalUrl options)) ∧
      ∀ base : BaseFileName,
        base.os = utf8Bytes (resolveDirectoryBasename uriPath sources originalUrl options) →
        ∀ name, some name ∈ renameCandidateNames base options.maxFilenameBytes →
          DirectEntry directory name := by
  obtain ⟨-, hfallback, hcap⟩ := validateDirectoryTarget_ok hvalid
  have hname : ContainedName options.maxFilenameBytes
      (resolveDirectoryBasename uriPath sources originalUrl options) :=
    resolveDirectoryBasename_contained sources originalUrl hfallback
  refine ⟨hname.direct hcap directory, fun base hbase name hmem => ?_⟩
  rcases List.mem_cons.mp hmem with heq | hmem
  · rw [Option.some.inj heq, hbase]
    exact hname.direct hcap directory
  · obtain ⟨n, -, hn⟩ := List.mem_map.mp hmem
    obtain ⟨text, hsibling, rfl⟩ := Option.map_eq_some_iff.mp hn
    -- a sibling is what the sanitizer makes of the cut name
    rw [renameSibling] at hsibling
    dsimp only at hsibling
    split_ifs at hsibling
    exact (sanitize_contained hsibling).direct hcap directory

/-- A header that asks for another directory. -/
theorem directory_target_contained_traversal :
    resolveDirectoryBasename (fun _ => none)
        ⟨some "../../etc/passwd".toList, none, []⟩ [] ⟨defaultFallbackFilename, 250⟩ =
      "passwd".toList ∧
      DirectEntry (components (ascii ['/', 'd'])) (utf8Bytes "passwd".toList) := by
  have hname : resolveDirectoryBasename (fun _ => none)
      ⟨some "../../etc/passwd".toList, none, []⟩ [] ⟨defaultFallbackFilename, 250⟩ =
      "passwd".toList := by
    decide
  have hfallback : trySanitizeFilename defaultFallbackFilename 250 =
      some defaultFallbackFilename := by
    decide
  have hvalid : validateDirectoryTarget (.ok true) "/d" (fun _ => "")
      ⟨defaultFallbackFilename, 250⟩ .rename = .ok () := by
    rw [validateDirectoryTarget]
    dsimp only
    rw [if_neg (not_or.mpr ⟨by decide, not_not.mpr hfallback⟩), if_neg (by decide)]
  have hdirect : DirectEntry (components (ascii ['/', 'd']))
      (utf8Bytes (resolveDirectoryBasename (fun _ => none) _ _ _)) :=
    (directory_target_contained ⟨some "../../etc/passwd".toList, none, []⟩ [] _ hvalid).1
  rw [hname] at hdirect
  exact ⟨hname, hdirect⟩

end KDown
