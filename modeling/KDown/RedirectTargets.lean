/-
KDown/RedirectTargets.lean

Redirect targets against the resolution of references (`resolve_redirect` and
`normalize_dot_segments` in http/redirect.rs).

`UriTarget.resolve` is what RFC 3986 says a reference means against a base, and
`resolveRedirect` what the engine follows.  The two differ on unusual but legal
references:

* a target with its own authority is taken over as it is, with its fragment and
  its dot segments;
* a reference without an authority is refused when `://` occurs anywhere in it;
* a fragment alone loses the query of the base;
* empty segments are dropped with the dot segments, and a dot segment at the end
  leaves no slash behind.

`Resolvable` is the condition on base and reference under which none of this
happens, and `resolveRedirect_eq_iff` says that it is exact.  For paths the
comparison is between two stacks of segments, the engine's being a sublist of
the other (`collapsed_sublist`): they are equal again whenever the larger one is
empty, and only then (`foldl_eq_iff`).
-/
import KDown.Redirect
import KDown.UriReference

namespace KDown

/-! ### Splitting at a word -/

theorem splitOnceWord_eq_some {word cs l r : List Char}
    (h : splitOnceWord word cs = some (l, r)) : cs = l ++ (word ++ r) := by
  induction cs generalizing l with
  | nil => cases h
  | cons c cs ih =>
    rw [splitOnceWord] at h
    rcases hafter : afterWord word (c :: cs) with - | rest <;> rw [hafter] at h
    · obtain ⟨⟨l', r'⟩, hsplit, heq⟩ := Option.map_eq_some_iff.mp h
      cases heq
      rw [ih hsplit, List.cons_append]
    · cases h
      rw [List.nil_append]
      exact afterWord_eq_some.mp hafter

theorem splitOnceWord_eq_none {word cs : List Char} (hword : word ≠ []) :
    splitOnceWord word cs = none ↔ ¬ word <:+: cs := by
  induction cs with
  | nil => simp [splitOnceWord, hword]
  | cons c cs ih =>
    rw [splitOnceWord, List.infix_cons_iff, not_or, ← ih]
    rcases hafter : afterWord word (c :: cs) with - | rest
    · rw [Option.map_eq_none_iff]
      refine (and_iff_right ?_).symm
      rintro ⟨t, ht⟩
      rw [afterWord_eq_some.mpr ht.symm] at hafter
      cases hafter
    · refine iff_of_false (by simp) fun hnot => hnot.1 ?_
      exact ⟨rest, (afterWord_eq_some.mp hafter).symm⟩

/-- The first occurrence is found when the text in front lacks the word's first
character. -/
theorem splitOnceWord_append {c : Char} {word l : List Char} (hl : c ∉ l) (r : List Char) :
    splitOnceWord (c :: word) (l ++ (c :: word ++ r)) = some (l, r) := by
  induction l with
  | nil =>
    rw [List.nil_append, List.cons_append, splitOnceWord, ← List.cons_append, afterWord_append]
  | cons d l ih =>
    rw [List.mem_cons, not_or] at hl
    have hafter : afterWord (c :: word) (d :: (l ++ (c :: word ++ r))) = none := by
      rw [afterWord, if_neg hl.1]
    rw [List.cons_append, splitOnceWord, hafter, ih hl.2]
    rfl

/-! ### Collapsing segments -/

/-- The segments of the engine's path: empty ones are dropped as well. -/
def collapsedSegments (segs : List (List Char)) : List (List Char) :=
  let kept := segs.foldl normalizeDotSegments.collapse []
  if kept = [] then [[]] else if segs.getLast? = some [] then kept ++ [[]] else kept

theorem nil_not_mem_collapse {stack : List (List Char)} (h : [] ∉ stack) (s : List Char) :
    [] ∉ normalizeDotSegments.collapse stack s := by
  rw [normalizeDotSegments.collapse]
  split_ifs with h₁ h₂
  · exact h
  · exact fun hmem => h ((List.dropLast_sublist _).subset hmem)
  · rw [List.mem_append, List.mem_singleton, not_or]
    exact ⟨h, fun heq => h₁ (.inl heq.symm)⟩

theorem nil_not_mem_foldl_collapse (segs : List (List Char)) {stack : List (List Char)}
    (h : [] ∉ stack) : [] ∉ segs.foldl normalizeDotSegments.collapse stack := by
  induction segs generalizing stack with
  | nil => exact h
  | cons s segs ih => exact ih (nil_not_mem_collapse h s)

theorem nil_not_mem_collapsed (segs : List (List Char)) :
    [] ∉ segs.foldl normalizeDotSegments.collapse [] :=
  nil_not_mem_foldl_collapse segs List.not_mem_nil

theorem slashFree_foldl_collapse {segs stack : List (List Char)} (h : SlashFree stack)
    (hsegs : SlashFree segs) : SlashFree (segs.foldl normalizeDotSegments.collapse stack) := by
  induction segs generalizing stack with
  | nil => exact h
  | cons s segs ih =>
    refine ih ?_ hsegs.tail
    rw [normalizeDotSegments.collapse]
    split_ifs
    · exact h
    · exact fun x hx => h x ((List.dropLast_sublist _).subset hx)
    · intro x hx
      rcases List.mem_append.mp hx with hx | hx
      · exact h x hx
      · rw [List.mem_singleton.mp hx]
        exact hsegs s List.mem_cons_self

/-- A path ends in a slash when its last segment is empty. -/
theorem getLast?_pathText {segs : List (List Char)} (h : SlashFree segs) :
    (pathText segs).getLast? = some '/' ↔ segs.getLast? = some [] := by
  induction segs using List.reverseRecOn with
  | nil => simp
  | append_singleton segs s _ =>
    rw [List.getLast?_concat, pathText_append, pathText_cons, pathText_nil, List.append_nil,
      List.getLast?_append_of_ne_nil _ (List.cons_ne_nil _ _), Option.some.injEq]
    rcases List.eq_nil_or_concat s with rfl | ⟨t, c, rfl⟩
    · simp
    · have hc : c ≠ '/' := fun heq => h (t.concat c) (by simp) (by simp [heq])
      simp [List.getLast?_cons_of_ne_nil, hc]

/-- `normalize_dot_segments` on an absolute path, as a list of segments. -/
theorem normalizeDotSegments_pathText {segs : List (List Char)} (h : SlashFree segs) :
    normalizeDotSegments (pathText segs) = pathText (collapsedSegments segs) := by
  have hsplit : (pathText segs).splitOn '/' = [] :: segs := by
    have hs := splitOn_append_pathText (a := []) List.not_mem_nil h
    rwa [List.nil_append] at hs
  have hfirst : ([] :: segs).foldl normalizeDotSegments.collapse [] =
      segs.foldl normalizeDotSegments.collapse [] := rfl
  have hfree : SlashFree (segs.foldl normalizeDotSegments.collapse []) :=
    slashFree_foldl_collapse (fun s hs => by cases hs) h
  have hnonempty := nil_not_mem_collapsed segs
  rw [normalizeDotSegments, collapsedSegments, hsplit, hfirst]
  rcases hkept : segs.foldl normalizeDotSegments.collapse [] with - | ⟨s, kept⟩
  · simp
  · rw [hkept] at hfree hnonempty
    -- what is kept does not end in a slash
    have hlast : (pathText (s :: kept)).getLast? ≠ some '/' := fun heq =>
      hnonempty (List.mem_of_getLast? ((getLast?_pathText hfree).mp heq))
    have hslash := getLast?_pathText h
    rw [if_neg (List.cons_ne_nil _ _)]
    simp only [← pathText_eq_intercalate, hslash]
    by_cases hend : segs.getLast? = some []
    · rw [if_pos ⟨hend, hlast⟩, if_pos hend]
      simp
    · rw [if_neg fun hboth => hend hboth.1, if_neg hend]

/-! ### The two stacks -/

theorem dotStep_sublist {a b : List (List Char)} (h : a.Sublist b) (s : List Char) :
    (normalizeDotSegments.collapse a s).Sublist (dotStep b s) := by
  rw [normalizeDotSegments.collapse, dotStep]
  by_cases h₁ : s = ['.']
  · rw [if_pos (.inr h₁), if_pos h₁]
    exact h
  · rw [if_neg h₁]
    by_cases h₂ : s = ['.', '.']
    · subst h₂
      rw [if_neg (by decide), if_pos rfl, if_pos rfl]
      have htail := h.reverse.tail.reverse
      rwa [List.tail_reverse, List.tail_reverse, List.reverse_reverse, List.reverse_reverse]
        at htail
    · rw [if_neg h₂, if_neg h₂]
      split_ifs with h₃
      · exact h.trans (List.sublist_append_left _ _)
      · exact h.append_right _

/-- **What the engine keeps is part of what is kept.** -/
theorem collapsed_sublist (segs : List (List Char)) {a b : List (List Char)} (h : a.Sublist b) :
    (segs.foldl normalizeDotSegments.collapse a).Sublist (segs.foldl dotStep b) := by
  induction segs generalizing a b with
  | nil => exact h
  | cons s segs ih => exact ih (dotStep_sublist h s)

/-- The engine keeps the same segments exactly when past the last point at which
nothing was left no empty segment follows. -/
theorem foldl_eq_iff (segs : List (List Char)) :
    segs.foldl normalizeDotSegments.collapse [] = segs.foldl dotStep [] ↔
      ∃ pre suf, segs = pre ++ suf ∧ pre.foldl dotStep [] = [] ∧ [] ∉ suf := by
  constructor
  · -- from the end of the path backwards, as long as the stacks are equal and not empty
    intro h
    induction segs using List.reverseRecOn with
    | nil => exact ⟨[], [], rfl, rfl, List.not_mem_nil⟩
    | append_singleton segs s ih =>
      by_cases hempty : (segs ++ [s]).foldl dotStep [] = []
      · exact ⟨segs ++ [s], [], (List.append_nil _).symm, hempty, List.not_mem_nil⟩
      have hsub := collapsed_sublist segs (List.Sublist.refl [])
      have hnot := nil_not_mem_collapsed (segs ++ [s])
      rw [h] at hnot
      simp only [List.foldl_append, List.foldl_cons, List.foldl_nil] at h hempty hnot
      have hs : s ≠ [] := by
        rintro rfl
        exact hnot (by simp [dotStep])
      have heq : segs.foldl normalizeDotSegments.collapse [] = segs.foldl dotStep [] := by
        by_cases h₁ : s = ['.']
        · subst h₁
          exact h
        by_cases h₂ : s = ['.', '.']
        · -- both stacks lose their last segment, so they were of one length
          subst h₂
          have h' : (segs.foldl normalizeDotSegments.collapse []).dropLast =
              (segs.foldl dotStep []).dropLast := h
          have hne : (segs.foldl dotStep []).dropLast ≠ [] := hempty
          refine hsub.eq_of_length ?_
          have hlen := congrArg List.length h'
          have hpos := List.length_pos_iff.mpr hne
          simp only [List.length_dropLast] at hlen hpos
          omega
        · have hcollapse : ∀ stack, normalizeDotSegments.collapse stack s = stack ++ [s] := by
            intro stack
            rw [normalizeDotSegments.collapse, if_neg (not_or.mpr ⟨hs, h₁⟩), if_neg h₂]
          have hdot : ∀ stack, dotStep stack s = stack ++ [s] := by
            intro stack
            rw [dotStep, if_neg h₁, if_neg h₂]
          rw [hcollapse, hdot] at h
          exact List.append_cancel_right h
      obtain ⟨pre, suf, rfl, hpre, hsuf⟩ := ih heq
      refine ⟨pre, suf ++ [s], List.append_assoc _ _ _, hpre, ?_⟩
      rw [List.mem_append, List.mem_singleton, not_or]
      exact ⟨hsuf, fun heq => hs heq.symm⟩
  · rintro ⟨pre, suf, rfl, hpre, hsuf⟩
    have hnil : pre.foldl normalizeDotSegments.collapse [] = [] := by
      have hsub := collapsed_sublist pre (List.Sublist.refl [])
      rw [hpre] at hsub
      exact List.sublist_nil.mp hsub
    rw [List.foldl_append, List.foldl_append, hpre, hnil]
    -- without empty segments the two steps are the same
    have hsame : ∀ (segs : List (List Char)), [] ∉ segs → ∀ stack,
        segs.foldl normalizeDotSegments.collapse stack = segs.foldl dotStep stack := by
      intro segs
      induction segs with
      | nil => exact fun _ _ => rfl
      | cons s segs ih =>
        intro hnot stack
        rw [List.mem_cons, not_or] at hnot
        have hs : s ≠ [] := fun heq => hnot.1 heq.symm
        rw [List.foldl_cons, List.foldl_cons, ih hnot.2]
        simp only [normalizeDotSegments.collapse, dotStep, hs, false_or]
    exact hsame suf hsuf []

/-- The condition on the segments of a path.  A dot segment at the end must
leave nothing; otherwise an empty segment in front of the last one must be taken
back, together with everything in front of it, by later `..` segments. -/
def Collapsible (segs : List (List Char)) : Prop :=
  if ∃ s ∈ segs.getLast?, IsDots s then segs.foldl dotStep [] = []
  else ∃ pre suf, segs.dropLast = pre ++ suf ∧ pre.foldl dotStep [] = [] ∧ [] ∉ suf

/-- The engine's path is the one without dot segments exactly under that
condition. -/
theorem collapsedSegments_eq_iff {segs : List (List Char)} (hne : segs ≠ []) :
    collapsedSegments segs = keptSegments segs ↔ Collapsible segs := by
  obtain ⟨init, s, rfl⟩ : ∃ init s, segs = init ++ [s] :=
    ⟨segs.dropLast, segs.getLast hne, (List.dropLast_append_getLast hne).symm⟩
  have hlast : (∃ x ∈ (init ++ [s]).getLast?, IsDots x) ↔ IsDots s := by
    rw [List.getLast?_concat]
    exact ⟨fun ⟨x, hx, hdots⟩ => Option.some.inj hx ▸ hdots, fun h => ⟨s, rfl, h⟩⟩
  have hsub := collapsed_sublist (init ++ [s]) (List.Sublist.refl [])
  have hnot := nil_not_mem_collapsed (init ++ [s])
  rw [Collapsible, keptSegments, dotEnd, collapsedSegments, List.getLast?_concat]
  rw [List.getLast?_concat] at hlast
  by_cases hdots : IsDots s
  · -- the slash behind the dots is an empty segment, which the engine never keeps
    have hs : ¬ some s = some [] := by
      rcases hdots with rfl | rfl <;> simp
    rw [if_pos (hlast.mpr hdots), if_pos (hlast.mpr hdots), if_neg hs]
    constructor
    · intro heq
      split_ifs at heq with hkept
      · have hcancel : [] ++ [[]] = (init ++ [s]).foldl dotStep [] ++ [[]] := heq
        exact (List.append_cancel_right hcancel).symm
      · exact absurd (heq ▸ List.mem_append_right _ (List.mem_singleton_self _)) hnot
    · intro hrfc
      have hkept : (init ++ [s]).foldl normalizeDotSegments.collapse [] = [] := by
        rw [hrfc] at hsub
        exact List.sublist_nil.mp hsub
      rw [if_pos hkept, hrfc, List.nil_append]
  · rw [if_neg (fun h => hdots (hlast.mp h)), if_neg (fun h => hdots (hlast.mp h)),
      List.append_nil, List.dropLast_concat, ← foldl_eq_iff]
    rw [IsDots, not_or] at hdots
    have hdot : (init ++ [s]).foldl dotStep [] = init.foldl dotStep [] ++ [s] := by
      rw [List.foldl_append, List.foldl_cons, List.foldl_nil, dotStep, if_neg hdots.1,
        if_neg hdots.2]
    rw [hdot, List.foldl_append, List.foldl_cons, List.foldl_nil]
    by_cases hs : s = []
    · subst hs
      have hcollapse : ∀ stack, normalizeDotSegments.collapse stack [] = stack := fun _ => rfl
      rw [hcollapse, if_pos rfl]
      split_ifs with hkept
      · rw [hkept]
        exact iff_of_eq (List.append_cancel_right_eq [] [[]] _)
      · rw [List.append_cancel_right_eq]
    · have hcollapse : ∀ stack, normalizeDotSegments.collapse stack s = stack ++ [s] := by
        intro stack
        rw [normalizeDotSegments.collapse, if_neg (not_or.mpr ⟨hs, hdots.1⟩), if_neg hdots.2]
      rw [hcollapse, if_neg (by simp), if_neg (by simpa using hs), List.append_cancel_right_eq]

/-- The engine's path against the path without dot segments. -/
theorem normalizeDotSegments_eq_iff {path : List Char} (h : path.head? = some '/') :
    normalizeDotSegments path = removeDotSegments path ↔ Collapsible (pathSegments path) := by
  have hfree := slashFree_pathSegments path
  rw [← collapsedSegments_eq_iff (pathSegments_ne_nil h)]
  conv_lhs => rw [← pathText_pathSegments h]
  rw [normalizeDotSegments_pathText hfree, removeDotSegments_pathText hfree]
  constructor
  · refine pathText_injective ?_ (slashFree_keptSegments hfree)
    have hkept : SlashFree ((pathSegments path).foldl normalizeDotSegments.collapse []) :=
      slashFree_foldl_collapse (fun s hs => by cases hs) hfree
    rw [collapsedSegments]
    intro s hs
    split_ifs at hs
    · rw [List.mem_singleton.mp hs]
      exact List.not_mem_nil
    · rcases List.mem_append.mp hs with hs | hs
      · exact hkept s hs
      · rw [List.mem_singleton.mp hs]
        exact List.not_mem_nil
    · exact hkept s hs
  · exact congrArg pathText

/-! ### Bases and references -/

/-- The current request URL in its components. -/
structure HttpUrl where
  scheme : List Char
  authority : List Char
  path : List Char
  query : Option (List Char)
  fragment : Option (List Char)
  schemeForm : toAsciiLowercase scheme = "http".toList ∨ toAsciiLowercase scheme = "https".toList
  pathForm : path = [] ∨ path.head? = some '/'

namespace HttpUrl

/-- The text of the URL. -/
def text (url : HttpUrl) : List Char :=
  url.scheme ++ ':' :: (hierarchyText (some url.authority) url.path ++
    (afterMark '?' url.query ++ afterMark '#' url.fragment))

/-- The base of a resolution, in the normal form in which the `http` crate reads
it: a lowercase scheme, and a slash for an empty path. -/
def components (url : HttpUrl) : UriTarget where
  scheme := toAsciiLowercase url.scheme
  authority := some url.authority
  path := if url.path = [] then ['/'] else url.path
  query := url.query

theorem head?_path (url : HttpUrl) : url.components.path.head? = some '/' := by
  show (if url.path = [] then ['/'] else url.path).head? = some '/'
  split_ifs with h
  · rfl
  · exact url.pathForm.resolve_left h

/-- The path that a reference with a path stands for, dot segments included. -/
def referencePath (url : HttpUrl) (path : List Char) : List Char :=
  if path.head? = some '/' then path else url.components.mergePath path

end HttpUrl

/-- What the `http` crate returns for an absolute URL. -/
def ReadsUrl (http : HttpCrate) (url : HttpUrl) : Prop :=
  ∃ uri, http.uri url.text = .ok uri ∧ uri.scheme = some url.components.scheme ∧
    uri.authority = some url.authority ∧ uri.path = url.components.path

/-- A reference in a `Location`: an http(s) reference has an authority, and
there are no blanks in it. -/
structure LocationReference extends UriReference where
  hosted : ∀ s ∈ scheme, toAsciiLowercase s = "http".toList ∨
    toAsciiLowercase s = "https".toList → authority.isSome = true
  printable : ∀ c ∈ toUriReference.text, c.isWhitespace = false

/-- No segment is a dot or two. -/
def NoDotSegments (path : List Char) : Prop := ∀ s ∈ pathSegments path, ¬ IsDots s

/-- When the engine follows the target of the reference. -/
def Resolvable (base : HttpUrl) (r : UriReference) : Prop :=
  match r.authority, r.scheme with
  -- taken over as it is
  | some _, _ => r.fragment = none ∧ NoDotSegments r.path
  -- read as a relative path
  | none, some _ => False
  | none, none =>
      ¬ "://".toList <:+: r.text ∧
        if r.path = [] then r.query.isSome = true ∨ r.fragment.isSome = true ∧ base.query = none
        else Collapsible (pathSegments (base.referencePath r.path))

/-! ### Components in a text -/

theorem afterMark_injective (mark : Char) : Function.Injective (afterMark mark) := by
  intro a b h
  rcases a with - | a <;> rcases b with - | b
  · rfl
  · cases h
  · cases h
  · rw [(List.cons.inj h).2]

/-- What follows a path begins with a mark. -/
theorem head_of_marks {query fragment : Option (List Char)} {c : Char} {t : List Char}
    (h : afterMark '?' query ++ afterMark '#' fragment = c :: t) : c = '?' ∨ c = '#' := by
  rcases query with - | q
  · rcases fragment with - | f
    · cases h
    · exact .inr (List.cons.inj h).1.symm
  · exact .inl (List.cons.inj h).1.symm

theorem SchemeText.not_mem {s : List Char} (h : SchemeText s) {c : Char}
    (halnum : c.isAlphanum = false) (hc : c ≠ '+' ∧ c ≠ '-' ∧ c ≠ '.') : c ∉ s := by
  intro hmem
  rcases h.chars c hmem with hc' | hc' | hc' | hc'
  · rw [hc'] at halnum
    cases halnum
  · exact hc.1 hc'
  · exact hc.2.1 hc'
  · exact hc.2.2 hc'

theorem SchemeText.validScheme {s : List Char} (h : SchemeText s) :
    KDown.validScheme s = true := by
  obtain ⟨c, cs, rfl, hc⟩ := h.first
  rw [KDown.validScheme, Bool.and_eq_true]
  refine ⟨hc, List.all_eq_true.mpr fun d hd => ?_⟩
  simpa [or_assoc] using h.chars d hd

theorem schemeText_of_validScheme {s : List Char} (h : validScheme s = true) : SchemeText s := by
  rcases s with - | ⟨c, cs⟩
  · cases h
  · rw [validScheme, Bool.and_eq_true] at h
    refine ⟨⟨c, cs, rfl, h.1⟩, fun d hd => ?_⟩
    simpa [or_assoc] using List.all_eq_true.mp h.2 d hd

/-- A text that begins with a scheme is not empty and does not begin with two
slashes. -/
theorem SchemeText.start {s : List Char} (h : SchemeText s) (x : List Char) :
    s ++ x ≠ [] ∧ ¬ ['/', '/'] <+: s ++ x := by
  obtain ⟨c, cs, rfl, hc⟩ := h.first
  refine ⟨List.cons_ne_nil _ _, ?_⟩
  rw [List.cons_append, List.cons_prefix_cons]
  rintro ⟨rfl, -⟩
  exact absurd hc (by decide)

theorem colon_not_mem_scheme {s : List Char} (h : SchemeText s) : ':' ∉ s :=
  h.not_mem (by decide) (by decide)

/-- A word found in a scheme's text ends it. -/
theorem not_validScheme_of_colon {l : List Char} (h : ':' ∈ l) : validScheme l = false := by
  rw [Bool.eq_false_iff]
  exact fun hvalid => colon_not_mem_scheme (schemeText_of_validScheme hvalid) h

/-- What is kept of a path comes from the path. -/
theorem mem_removeDotSegments {path : List Char} (h : path = [] ∨ path.head? = some '/') {c : Char}
    (hc : c ∈ removeDotSegments path) : c = '/' ∨ c ∈ path := by
  rcases h with rfl | h
  · cases hc
  have hstep : ∀ {segs stack : List (List Char)} {s : List Char}, s ∈ segs.foldl dotStep stack →
      s ∈ stack ∨ s ∈ segs := by
    intro segs
    induction segs with
    | nil => exact fun hs => .inl hs
    | cons x segs ih =>
      intro stack s hs
      rcases ih hs with hs | hs
      · rw [dotStep] at hs
        split_ifs at hs
        · exact .inl hs
        · exact .inl ((List.dropLast_sublist _).subset hs)
        · rcases List.mem_append.mp hs with hs | hs
          · exact .inl hs
          · exact .inr (List.mem_singleton.mp hs ▸ List.mem_cons_self)
      · exact .inr (List.mem_cons_of_mem _ hs)
  rw [← pathText_pathSegments h] at hc ⊢
  rw [removeDotSegments_pathText (slashFree_pathSegments path), pathText, List.mem_flatMap] at hc
  obtain ⟨s, hs, hc⟩ := hc
  rcases List.mem_cons.mp hc with rfl | hc
  · exact .inl rfl
  · refine .inr (List.mem_flatMap.mpr ⟨s, ?_, List.mem_cons_of_mem _ hc⟩)
    rcases List.mem_append.mp hs with hs | hs
    · exact (hstep hs).resolve_left List.not_mem_nil
    · rw [dotEnd] at hs
      split_ifs at hs
      · rw [List.mem_singleton.mp hs] at hc
        cases hc
      · cases hs

/-- A path is left as it is exactly if it has no dot segments. -/
theorem removeDotSegments_eq_self_iff {path : List Char}
    (h : path = [] ∨ path.head? = some '/') :
    removeDotSegments path = path ↔ NoDotSegments path := by
  rcases h with rfl | h
  · refine iff_of_true rfl fun s hs => ?_
    cases hs
  · have hiff := removeDotSegments_eq_self (slashFree_pathSegments path)
    rw [pathText_pathSegments h] at hiff
    exact hiff

/-- A target with its own authority is taken over unchanged: it is right when
there is nothing to remove. -/
theorem takenOver_eq_iff (r : UriReference) {a : List Char} (ha : r.authority = some a) :
    hierarchyText r.authority r.path ++ afterMark '?' r.query ++ afterMark '#' r.fragment =
      hierarchyText r.authority (removeDotSegments r.path) ++ afterMark '?' r.query ↔
      r.fragment = none ∧ NoDotSegments r.path := by
  have hpath := r.pathBehindAuthority (by rw [ha]; rfl)
  rw [← removeDotSegments_eq_self_iff hpath, ha]
  constructor
  · intro heq
    -- nothing but the fragment has a `#`
    have hnone : r.fragment = none := by
      rcases hfragment : r.fragment with - | f
      · rfl
      · have hmem : '#' ∈ hierarchyText (some a) (removeDotSegments r.path) ++
            afterMark '?' r.query := by
          rw [← heq, hfragment]
          simp [afterMark]
        simp only [hierarchyText, List.mem_append, List.mem_cons] at hmem
        rcases hmem with (hmem | hmem | hmem | hmem) | hmem
        · cases hmem
        · cases hmem
        · exact absurd rfl (r.authorityForm a ha _ hmem).2.2
        · rcases mem_removeDotSegments hpath hmem with hmem | hmem
          · cases hmem
          · exact absurd rfl (r.pathForm _ hmem).2
        · rcases hquery : r.query with - | q <;> rw [hquery] at hmem
          · cases hmem
          · rcases List.mem_cons.mp hmem with hmem | hmem
            · cases hmem
            · exact absurd hmem (r.queryForm q hquery)
    refine ⟨hnone, ?_⟩
    rw [hnone] at heq
    simp only [afterMark, List.append_nil, hierarchyText, List.append_cancel_right_eq,
      List.cons.injEq, true_and, List.append_cancel_left_eq] at heq
    exact heq.symm
  · rintro ⟨hnone, hself⟩
    rw [hself, hnone]
    exact List.append_nil _

/-! ### The cases of the resolver -/

section Cases

variable {http : HttpCrate} {base : HttpUrl}

theorem parseUri_of_reads {uri : Uri} (h : http.uri base.text = .ok uri) :
    parseUri http base.text = .ok uri := by
  rw [parseUri, h]

/-- The path of a relative reference. -/
def relativePath (base : HttpUrl) (path : List Char) : List Char :=
  if path = [] then base.components.path else normalizeDotSegments (base.referencePath path)

/-- The directory of a path ends in a slash, whatever the path ends in. -/
theorem pathDirectory_append {path : List Char} (h : path.head? = some '/') (p : List Char) :
    pathDirectory path ++ p = path.rdropWhile (· ≠ '/') ++ p ∧
      (path.rdropWhile (· ≠ '/') ++ p).head? = some '/' := by
  have hne : path.rdropWhile (· ≠ '/') ≠ [] := by
    rw [Ne, List.rdropWhile_eq_nil_iff]
    intro hall
    rcases path with - | ⟨c, cs⟩
    · cases h
    · cases h
      exact absurd (hall '/' List.mem_cons_self) (by decide)
  constructor
  · rw [pathDirectory]
    rcases hdir : (path.reverse.dropWhile (· ≠ '/')).reverse with - | ⟨c, cs⟩
    · exact absurd hdir hne
    · rw [List.rdropWhile, hdir]
  · rw [List.head?_append_of_ne_nil _ hne]
    obtain ⟨t, ht⟩ := List.rdropWhile_prefix (· ≠ '/') path
    rw [← ht, List.head?_append_of_ne_nil _ hne] at h
    exact h

theorem head?_referencePath {path : List Char} :
    (base.referencePath path).head? = some '/' := by
  rw [HttpUrl.referencePath]
  split_ifs with h
  · exact h
  · have hbase := base.head?_path
    rw [UriTarget.mergePath, if_neg]
    · exact (pathDirectory_append hbase path).2
    · rintro ⟨-, hnil⟩
      rw [hnil] at hbase
      cases hbase

/-- What stands in front of the fragment. -/
theorem takeWhile_reference {path : List Char} (hpath : ∀ c ∈ path, c ≠ '?' ∧ c ≠ '#')
    {query fragment : Option (List Char)} (hquery : ∀ q ∈ query, '#' ∉ q) :
    (path ++ afterMark '?' query ++ afterMark '#' fragment).takeWhile (· ≠ '#') =
      path ++ afterMark '?' query := by
  have hfree : ∀ c ∈ path ++ afterMark '?' query, c ≠ '#' := by
    intro c hc
    rcases List.mem_append.mp hc with hc | hc
    · exact (hpath c hc).2
    · rcases query with - | q
      · cases hc
      · rcases List.mem_cons.mp hc with rfl | hc
        · decide
        · exact fun heq => hquery q rfl (heq ▸ hc)
  rw [List.takeWhile_append_of_pos fun c hc => by simpa using hfree c hc]
  rcases fragment with - | f
  · simp [afterMark]
  · simp [afterMark]

/-- **A relative reference is resolved below the base**, with its own query and
without its fragment. -/
theorem resolveRelative_of_reads (hreads : ReadsUrl http base) {path : List Char}
    (hpath : ∀ c ∈ path, c ≠ '?' ∧ c ≠ '#') {query fragment : Option (List Char)}
    (hquery : ∀ q ∈ query, '#' ∉ q) :
    resolveRelative http base.text (path ++ afterMark '?' query ++ afterMark '#' fragment) =
      .ok (base.components.scheme ++ ':' :: (hierarchyText (some base.authority)
        (relativePath base path) ++ afterMark '?' query)) := by
  obtain ⟨uri, hread, hscheme, hauthority, huri⟩ := hreads
  have hrel : (if path = [] then uri.path
      else if path.head? = some '/' then normalizeDotSegments path
      else normalizeDotSegments (pathDirectory uri.path ++ path)) = relativePath base path := by
    rw [relativePath, huri]
    split_ifs with hnil hslash
    · rfl
    · rw [HttpUrl.referencePath, if_pos hslash]
    · have hbase := base.head?_path
      rw [HttpUrl.referencePath, if_neg hslash, UriTarget.mergePath, if_neg,
        (pathDirectory_append hbase path).1]
      rintro ⟨-, hempty⟩
      rw [hempty] at hbase
      cases hbase
  have hmark : '?' ∉ path := fun h => (hpath _ h).1 rfl
  have htake : (path ++ afterMark '?' query ++ afterMark '#' fragment).takeWhile (· ≠ '#') =
      path ++ afterMark '?' query := takeWhile_reference hpath hquery
  rw [resolveRelative, parseUri_of_reads hread]
  show Except.bind (.ok uri) _ = _
  simp only [Except.bind, hauthority, hscheme, Option.getD_some, htake]
  rcases query with - | q
  · have hsplit : splitOnce '?' (path ++ afterMark '?' none) = none := by
      rw [afterMark, List.append_nil]
      exact splitOnce_eq_none.mpr hmark
    simp only [hsplit]
    simp only [afterMark, List.append_nil, hrel, hierarchyText]
    simp
  · have hsplit : splitOnce '?' (path ++ afterMark '?' (some q)) = some (path, q) :=
      splitOnce_append hmark q
    simp only [hsplit, hrel]
    simp [hierarchyText, afterMark]

/-- A reference without an authority does not begin with two slashes. -/
theorem not_slashes {r : UriReference} (ha : r.authority = none) (query fragment) :
    ¬ ['/', '/'] <+: r.path ++ afterMark '?' query ++ afterMark '#' fragment := by
  rintro ⟨t, ht⟩
  have hpath := r.pathWithoutAuthority ha
  rcases hp : r.path with - | ⟨c, cs⟩
  · rw [hp, List.nil_append] at ht
    rcases query with - | q
    · rcases fragment with - | f <;> cases ht
    · cases ht
  · rcases cs with - | ⟨d, cs⟩
    · rw [hp] at ht
      rcases query with - | q
      · rcases fragment with - | f
        · cases ht
        · exact absurd (List.cons.inj (List.cons.inj ht).2).1 (by decide)
      · exact absurd (List.cons.inj (List.cons.inj ht).2).1 (by decide)
    · rw [hp] at ht hpath
      have h₁ : '/' = c := (List.cons.inj ht).1
      have h₂ : '/' = d := (List.cons.inj (List.cons.inj ht).2).1
      subst h₁ h₂
      exact hpath ⟨cs, rfl⟩

theorem afterWord_slashes {cs : List Char} : (afterWord "//".toList cs).isSome = true ↔
    ['/', '/'] <+: cs := by
  rw [Option.isSome_iff_exists]
  exact ⟨fun ⟨t, ht⟩ => ⟨t, (afterWord_eq_some.mp ht).symm⟩,
    fun ⟨t, ht⟩ => ⟨t, afterWord_eq_some.mpr ht.symm⟩⟩

variable (base) in
/-- The resolver on a text that is neither blank nor begins with two slashes. -/
theorem resolveRedirect_of_scheme {text l rest : List Char} (htrim : trimText text = text)
    (hne : text ≠ []) (hslashes : ¬ ['/', '/'] <+: text)
    (hword : splitOnceWord "://".toList text = some (l, rest)) :
    (validScheme l = true → resolveRedirect http base.text text = .ok text) ∧
      (validScheme l = false → ∀ t, resolveRedirect http base.text text ≠ .ok t) := by
  have hafter : ¬ (afterWord "//".toList text).isSome = true := fun h =>
    hslashes (afterWord_slashes.mp h)
  constructor
  · intro hvalid
    simp only [resolveRedirect, htrim]
    rw [if_neg hne, if_neg hafter, hword]
    simp only [hvalid, if_true]
  · intro hvalid t
    simp only [resolveRedirect, htrim]
    rw [if_neg hne, if_neg hafter, hword]
    simp [hvalid]

theorem resolveRedirect_relative {text : List Char} (htrim : trimText text = text)
    (hne : text ≠ []) (hslashes : ¬ ['/', '/'] <+: text)
    (hword : splitOnceWord "://".toList text = none) :
    resolveRedirect http base.text text = resolveRelative http base.text text := by
  have hafter : ¬ (afterWord "//".toList text).isSome = true := fun h =>
    hslashes (afterWord_slashes.mp h)
  simp only [resolveRedirect, htrim]
  rw [if_neg hne, if_neg hafter, hword]

/-- Two texts with schemes in front are equal when the schemes and the rests
are. -/
theorem colon_split {a b x y : List Char} (ha : ':' ∉ a) (hb : ':' ∉ b)
    (h : a ++ ':' :: x = b ++ ':' :: y) : a = b ∧ x = y := by
  have h₁ := splitOnce_append ha x
  rw [h, splitOnce_append hb y, Option.some.injEq, Prod.mk.injEq] at h₁
  exact ⟨h₁.1.symm, h₁.2.symm⟩

theorem colon_not_mem_components (base : HttpUrl) : ':' ∉ base.components.scheme := by
  show ':' ∉ toAsciiLowercase base.scheme
  rcases base.schemeForm with h | h <;> rw [h] <;> decide

/-- A reference with its own authority. -/
theorem resolveRedirect_authority (hreads : ReadsUrl http base) (r : LocationReference)
    {a : List Char} (ha : r.authority = some a) :
    resolveRedirect http base.text r.text =
        .ok (base.components.resolve r.toUriReference).text ↔
      r.fragment = none ∧ NoDotSegments r.path := by
  have htrim : trimText r.text = r.text := trimText_of_not_whitespace r.printable
  rw [← takenOver_eq_iff r.toUriReference ha]
  rcases hs : r.scheme with - | s
  · -- a network-path reference: the scheme of the base is put in front
    obtain ⟨uri, hread, hscheme, -, -⟩ := hreads
    have htext : r.text = hierarchyText r.authority r.path ++ afterMark '?' r.query ++
        afterMark '#' r.fragment := by
      rw [UriReference.text, UriReference.textWithoutFragment, hs]
    have hslashes : (afterWord "//".toList r.text).isSome = true := by
      rw [afterWord_slashes, htext, ha]
      exact ⟨_, rfl⟩
    have hne : r.text ≠ [] := by
      rw [htext, ha]
      exact List.cons_ne_nil _ _
    have hresult : resolveRedirect http base.text r.text =
        .ok (base.components.scheme ++ ':' :: r.text) := by
      simp only [resolveRedirect, htrim]
      rw [if_neg hne, if_pos hslashes, parseUri_of_reads hread]
      show Except.ok (uri.scheme.getD "http".toList ++ ':' :: r.text) = _
      rw [hscheme, Option.getD_some]
    have htarget : (base.components.resolve r.toUriReference).text =
        base.components.scheme ++ ':' :: (hierarchyText r.authority (removeDotSegments r.path) ++
          afterMark '?' r.query) := by
      rw [UriTarget.resolve, hs, ha]
      rfl
    rw [hresult, htarget, Except.ok.injEq, List.append_cancel_left_eq, List.cons.injEq, htext]
    exact and_iff_right rfl
  · -- an absolute reference is the result
    have hscheme := r.schemeForm s hs
    have hcolon := colon_not_mem_scheme hscheme
    have htext : r.text = s ++ ':' :: (hierarchyText r.authority r.path ++
        afterMark '?' r.query ++ afterMark '#' r.fragment) := by
      rw [UriReference.text, UriReference.textWithoutFragment, hs]
      simp
    obtain ⟨hne, hslashes⟩ : r.text ≠ [] ∧ ¬ ['/', '/'] <+: r.text := htext ▸ hscheme.start _
    have hword : splitOnceWord "://".toList r.text = some (s, a ++ r.path ++
        afterMark '?' r.query ++ afterMark '#' r.fragment) := by
      rw [htext, ha]
      have hsplit : splitOnceWord [':', '/', '/'] _ = some (s, _) :=
        splitOnceWord_append hcolon
          (a ++ r.path ++ afterMark '?' r.query ++ afterMark '#' r.fragment)
      rw [← hsplit]
      simp [hierarchyText]
    have hresult : resolveRedirect http base.text r.text = .ok r.text :=
      (resolveRedirect_of_scheme base htrim hne hslashes hword).1 hscheme.validScheme
    have htarget : (base.components.resolve r.toUriReference).text =
        s ++ ':' :: (hierarchyText r.authority (removeDotSegments r.path) ++
          afterMark '?' r.query) := by
      rw [UriTarget.resolve, hs]
      rfl
    rw [hresult, htarget, Except.ok.injEq, htext, List.append_cancel_left_eq, List.cons.injEq]
    exact and_iff_right rfl

/-- A reference with a scheme and no authority is read as a relative path. -/
theorem resolveRedirect_schemeOnly (hreads : ReadsUrl http base) (r : LocationReference)
    {s : List Char} (hs : r.scheme = some s) (ha : r.authority = none) :
    resolveRedirect http base.text r.text ≠
      .ok (base.components.resolve r.toUriReference).text := by
  have htrim : trimText r.text = r.text := trimText_of_not_whitespace r.printable
  have hscheme := r.schemeForm s hs
  have hcolon := colon_not_mem_scheme hscheme
  have htext : r.text = s ++ ':' :: (r.path ++ afterMark '?' r.query ++
      afterMark '#' r.fragment) := by
    rw [UriReference.text, UriReference.textWithoutFragment, hs, ha]
    simp [hierarchyText]
  have htarget : ∃ x, (base.components.resolve r.toUriReference).text = s ++ ':' :: x := by
    rw [UriTarget.resolve, hs]
    exact ⟨_, rfl⟩
  obtain ⟨x, hx⟩ := htarget
  obtain ⟨hne, hslashes⟩ : r.text ≠ [] ∧ ¬ ['/', '/'] <+: r.text := htext ▸ hscheme.start _
  rcases hword : splitOnceWord "://".toList r.text with - | ⟨l, rest⟩
  · rw [resolveRedirect_relative htrim hne hslashes hword]
    -- the result has the scheme of the base, and the reference is not http(s)
    have hpath : ∀ c ∈ s ++ ':' :: r.path, c ≠ '?' ∧ c ≠ '#' := by
      intro c hc
      rcases List.mem_append.mp hc with hc | hc
      · exact ⟨fun heq => hscheme.not_mem (by decide) (by decide) (heq ▸ hc),
          fun heq => hscheme.not_mem (by decide) (by decide) (heq ▸ hc)⟩
      · rcases List.mem_cons.mp hc with rfl | hc
        · decide
        · exact r.pathForm c hc
    have hresult : resolveRelative http base.text (s ++ ':' :: r.path ++ afterMark '?' r.query ++
        afterMark '#' r.fragment) = .ok _ := resolveRelative_of_reads hreads hpath r.queryForm
    have hsame : s ++ ':' :: r.path ++ afterMark '?' r.query ++ afterMark '#' r.fragment =
        r.text := by
      rw [htext]
      simp
    rw [hsame] at hresult
    rw [hresult, hx, Ne, Except.ok.injEq]
    intro heq
    have hbase := (colon_split (colon_not_mem_components base) hcolon heq).1
    have hhttp : toAsciiLowercase s = "http".toList ∨ toAsciiLowercase s = "https".toList := by
      have hcomponents : base.components.scheme = toAsciiLowercase base.scheme := rfl
      rw [← hbase, hcomponents]
      rcases base.schemeForm with h | h
      · rw [h]
        exact .inl (by decide)
      · rw [h]
        exact .inr (by decide)
    have hhosted := r.hosted s hs hhttp
    rw [ha] at hhosted
    cases hhosted
  · -- the word stands behind the scheme's colon
    have hl : ':' ∈ l := by
      by_contra hnot
      have hsplit := splitOnceWord_eq_some hword
      rw [htext] at hsplit
      have hrest := (colon_split hcolon hnot hsplit).2
      exact not_slashes ha r.query r.fragment ⟨rest, hrest.symm⟩
    exact (resolveRedirect_of_scheme base htrim hne hslashes hword).2
      (not_validScheme_of_colon hl) _

/-- A scheme in front of a relative reference would end in its first segment. -/
theorem colon_mem_firstSegment {path l rest : List Char} {query fragment : Option (List Char)}
    (hscheme : SchemeText l)
    (h : path ++ (afterMark '?' query ++ afterMark '#' fragment) = l ++ ':' :: rest) :
    ':' ∈ path.takeWhile (· ≠ '/') := by
  rcases List.append_eq_append_iff.mp h with ⟨t, hl, htail⟩ | ⟨t, hpath, hrest⟩
  · -- the path would end inside the scheme
    rcases t with - | ⟨c, t⟩
    · rcases head_of_marks htail with hcolon | hcolon <;> cases hcolon
    · have hc : c ∈ l := hl ▸ List.mem_append_right _ List.mem_cons_self
      rcases head_of_marks htail with rfl | rfl
      · exact absurd hc (hscheme.not_mem (by decide) (by decide))
      · exact absurd hc (hscheme.not_mem (by decide) (by decide))
  · rcases t with - | ⟨c, t⟩
    · rcases head_of_marks hrest.symm with hcolon | hcolon <;> cases hcolon
    · have hc : ':' = c := (List.cons.inj hrest).1
      subst hc
      have hfree : ∀ c ∈ l, decide (c ≠ '/') = true := fun c hc =>
        decide_eq_true fun heq => hscheme.not_mem (by decide) (by decide) (heq ▸ hc)
      rw [hpath, List.takeWhile_append_of_pos hfree, List.takeWhile_cons_of_pos (by decide)]
      exact List.mem_append_right _ List.mem_cons_self

theorem resolve_of_empty_path {r : UriReference} (hs : r.scheme = none) (ha : r.authority = none)
    (hpath : r.path = []) :
    base.components.resolve r = { base.components with query := r.query <|> base.query } := by
  rw [UriTarget.resolve, hs, ha]
  simp only [hpath, if_true]
  rfl

theorem resolve_of_path {r : UriReference} (hs : r.scheme = none) (ha : r.authority = none)
    (hpath : r.path ≠ []) :
    base.components.resolve r =
      { base.components with
        path := removeDotSegments (base.referencePath r.path), query := r.query } := by
  rw [UriTarget.resolve, hs, ha]
  simp only [hpath, if_false, HttpUrl.referencePath]
  split_ifs <;> rfl

/-- A reference with neither a scheme nor an authority. -/
theorem resolveRedirect_pathOnly (hreads : ReadsUrl http base) (r : LocationReference)
    (hs : r.scheme = none) (ha : r.authority = none) :
    resolveRedirect http base.text r.text =
        .ok (base.components.resolve r.toUriReference).text ↔
      ¬ "://".toList <:+: r.text ∧
        if r.path = [] then r.query.isSome = true ∨ r.fragment.isSome = true ∧ base.query = none
        else Collapsible (pathSegments (base.referencePath r.path)) := by
  have htrim : trimText r.text = r.text := trimText_of_not_whitespace r.printable
  have htext : r.text = r.path ++ afterMark '?' r.query ++ afterMark '#' r.fragment := by
    rw [UriReference.text, UriReference.textWithoutFragment, hs, ha]
    rfl
  by_cases hne : r.text = []
  · -- an empty location is an error
    refine iff_of_false ?_ ?_
    · simp only [resolveRedirect, htrim]
      rw [if_pos hne]
      rintro ⟨⟩
    · rintro ⟨-, hcond⟩
      rw [htext, List.append_eq_nil_iff, List.append_eq_nil_iff] at hne
      obtain ⟨⟨hpath, hquery⟩, hfragment⟩ := hne
      rw [if_pos hpath] at hcond
      rcases hq : r.query with - | q <;> rw [hq] at hquery hcond
      · rcases hf : r.fragment with - | f <;> rw [hf] at hfragment hcond
        · rcases hcond with hcond | ⟨hcond, -⟩ <;> cases hcond
        · cases hfragment
      · cases hquery
  have hslashes : ¬ ['/', '/'] <+: r.text := htext ▸ not_slashes ha r.query r.fragment
  rcases hword : splitOnceWord "://".toList r.text with - | ⟨l, rest⟩
  · have hinfix : ¬ "://".toList <:+: r.text := (splitOnceWord_eq_none (by decide)).mp hword
    have hresult : resolveRelative http base.text (r.path ++ afterMark '?' r.query ++
        afterMark '#' r.fragment) = .ok _ := resolveRelative_of_reads hreads r.pathForm r.queryForm
    rw [← htext] at hresult
    rw [resolveRedirect_relative htrim hne hslashes hword, hresult, Except.ok.injEq,
      and_iff_right hinfix, UriTarget.text]
    have hauthority : base.components.authority = some base.authority := rfl
    by_cases hpath : r.path = []
    · rw [resolve_of_empty_path hs ha hpath, if_pos hpath, relativePath, if_pos hpath]
      simp only [hauthority, hierarchyText, List.append_cancel_left_eq, List.cons.injEq, true_and,
        List.cons_append]
      rw [(afterMark_injective '?').eq_iff]
      -- without a query of its own the reference has the query of the base
      rcases hq : r.query with - | q
      · have hfragment : r.fragment.isSome = true := by
          rcases hf : r.fragment with - | f
          · rw [htext, hpath, hq, hf] at hne
            exact absurd rfl hne
          · rfl
        simp [hfragment, eq_comm]
      · simp
    · rw [resolve_of_path hs ha hpath, if_neg hpath, relativePath, if_neg hpath,
        ← normalizeDotSegments_eq_iff head?_referencePath]
      simp only [hauthority, hierarchyText, List.append_cancel_left_eq, List.cons.injEq, true_and,
        List.append_cancel_right_eq]
  · have hinfix : "://".toList <:+: r.text := by
      rw [splitOnceWord_eq_some hword]
      exact ⟨l, rest, by simp⟩
    refine iff_of_false ?_ fun h => h.1 hinfix
    -- what stands in front of the word is no scheme: its colon would be in the first segment
    have hl : validScheme l = false := by
      by_contra hvalid
      have hscheme := schemeText_of_validScheme (Bool.not_eq_false _ ▸ hvalid)
      have hsplit := splitOnceWord_eq_some hword
      rw [htext, List.append_assoc] at hsplit
      exact r.firstSegment hs ha (colon_mem_firstSegment hscheme hsplit)
    exact (resolveRedirect_of_scheme base htrim hne hslashes hword).2 hl _

end Cases

/-- **Redirect references are resolved as references are.**  For every absolute
http(s) base and every reference in a `Location`, the engine follows the target
of the reference, without its fragment, exactly under the condition
`Resolvable`. -/
theorem resolveRedirect_eq_iff (http : HttpCrate) (base : HttpUrl) (r : LocationReference)
    (hreads : ReadsUrl http base) :
    resolveRedirect http base.text r.text =
        .ok (base.components.resolve r.toUriReference).text ↔
      Resolvable base r.toUriReference := by
  rw [Resolvable]
  rcases ha : r.authority with - | a
  · rcases hs : r.scheme with - | s
    · exact resolveRedirect_pathOnly hreads r hs ha
    · exact iff_of_false (resolveRedirect_schemeOnly hreads r hs ha) id
  · exact resolveRedirect_authority hreads r ha

/-- A reader that splits a URL at its marks, as the `http` crate does on plain
URLs. -/
def splitHttp : HttpCrate where
  uri := fun url =>
    match splitOnceWord "://".toList url with
    | none => .error "invalid format"
    | some (scheme, rest) =>
        let authority := rest.takeWhile fun c => c ≠ '/' && c ≠ '?' && c ≠ '#'
        let path := (rest.drop authority.length).takeWhile fun c => c ≠ '?' && c ≠ '#'
        .ok
          { scheme := some (toAsciiLowercase scheme)
            authority := some authority
            host := some authority
            port := none
            path := if path = [] then ['/'] else path }
  headerName := fun _ => .ok ()
  headerValue := fun _ => .ok ()

/-- `http://a/b/c?q`. -/
def plainBase : HttpUrl where
  scheme := "http".toList
  authority := "a".toList
  path := "/b/c".toList
  query := some "q".toList
  fragment := none
  schemeForm := .inl (by decide)
  pathForm := .inr rfl

theorem readsUrl_plainBase : ReadsUrl splitHttp plainBase :=
  ⟨_, rfl, by decide, by decide, by decide⟩

/-- `../d`. -/
def parentReference : LocationReference where
  scheme := none
  authority := none
  path := "../d".toList
  query := none
  fragment := none
  schemeForm := by simp
  authorityForm := by simp
  pathForm := forall_mem_of_all (by decide)
  pathBehindAuthority := by simp
  pathWithoutAuthority := fun _ => by decide
  firstSegment := fun _ _ => by decide
  queryForm := by simp
  hosted := by simp
  printable := forall_mem_of_all (by decide)

/-- `http://c/d#e`. -/
def fragmentReference : LocationReference where
  scheme := some "http".toList
  authority := some "c".toList
  path := "/d".toList
  query := none
  fragment := some "e".toList
  schemeForm := by
    rintro s ⟨⟩
    exact ⟨⟨'h', "ttp".toList, rfl, by decide⟩, forall_mem_of_all (by decide)⟩
  authorityForm := by
    rintro a ⟨⟩
    exact forall_mem_of_all (by decide)
  pathForm := forall_mem_of_all (by decide)
  pathBehindAuthority := fun _ => .inr rfl
  pathWithoutAuthority := by rintro ⟨⟩
  firstSegment := by rintro ⟨⟩
  queryForm := by simp
  hosted := fun _ _ _ => rfl
  printable := forall_mem_of_all (by decide)

/-- `../d` below `/b/c` is resolved as it should be. -/
theorem resolveRedirect_eq_iff_parent :
    resolveRedirect splitHttp plainBase.text parentReference.text = .ok "http://a/d".toList := by
  have hresolvable : Resolvable plainBase parentReference.toUriReference := by
    refine ⟨by decide, ?_⟩
    show Collapsible [['b'], ['.', '.'], ['d']]
    exact ⟨[['b'], ['.', '.']], [], rfl, rfl, List.not_mem_nil⟩
  exact (resolveRedirect_eq_iff splitHttp plainBase parentReference readsUrl_plainBase).mpr
    hresolvable

/-- The fragment of an absolute reference is kept. -/
theorem resolveRedirect_keeps_fragment :
    ReadsUrl splitHttp plainBase ∧
      resolveRedirect splitHttp plainBase.text fragmentReference.text =
        .ok "http://c/d#e".toList ∧
      (plainBase.components.resolve fragmentReference.toUriReference).text =
        "http://c/d".toList ∧
      resolveRedirect splitHttp plainBase.text fragmentReference.text ≠
        .ok (plainBase.components.resolve fragmentReference.toUriReference).text := by
  have hresult : resolveRedirect splitHttp plainBase.text fragmentReference.text =
      .ok "http://c/d#e".toList := rfl
  have htarget : (plainBase.components.resolve fragmentReference.toUriReference).text =
      "http://c/d".toList := rfl
  refine ⟨readsUrl_plainBase, hresult, htarget, ?_⟩
  rw [hresult, htarget, Ne, Except.ok.injEq]
  decide

end KDown
