/-
KDown/UriReference.lean

References and their resolution (RFC 3986, sections 4.1, 5.2 and 5.3).

A reference is kept in its five components, with the side conditions of the
grammar as fields: its text then has only one reading.  `resolve` transforms a
reference into the components of its target, and `text` recomposes them.

`removeDotSegments` is the loop of section 5.2.4 over an input and an output
buffer.  On an absolute path it is a stack of segments
(`removeDotSegments_pathText`), which is the form everything is proved in: a
path is `pathText segs`, every segment behind its slash.
-/
import Mathlib.Data.List.DropRight
import Mathlib.Data.List.Induction
import Mathlib.Data.List.TakeWhile
import Mathlib.Tactic.Cases

namespace KDown

/-! ### Absolute paths as lists of segments -/

/-- Every segment behind a slash. -/
def pathText (segs : List (List Char)) : List Char := segs.flatMap fun s => '/' :: s

/-- The segments of an absolute path. -/
def pathSegments (path : List Char) : List (List Char) := (path.splitOn '/').tail

/-- No segment has a slash. -/
def SlashFree (segs : List (List Char)) : Prop := ∀ s ∈ segs, '/' ∉ s

@[simp] theorem pathText_nil : pathText [] = [] := rfl

@[simp] theorem pathText_cons (s : List Char) (segs : List (List Char)) :
    pathText (s :: segs) = '/' :: (s ++ pathText segs) := by
  rw [pathText, List.flatMap_cons, List.cons_append]
  rfl

@[simp] theorem pathText_append (segs segs' : List (List Char)) :
    pathText (segs ++ segs') = pathText segs ++ pathText segs' := List.flatMap_append

theorem SlashFree.tail {s : List Char} {segs : List (List Char)} (h : SlashFree (s :: segs)) :
    SlashFree segs := fun x hx => h x (List.mem_cons_of_mem _ hx)

theorem splitOn_append_pathText {a : List Char} (ha : '/' ∉ a) {segs : List (List Char)}
    (h : SlashFree segs) : (a ++ pathText segs).splitOn '/' = a :: segs := by
  induction segs generalizing a with
  | nil =>
    rw [pathText_nil, List.append_nil]
    exact List.splitOn_eq_singleton ha
  | cons s segs ih =>
    rw [pathText_cons, List.splitOn_append_cons_self_of_not_mem ha,
      ih (h s List.mem_cons_self) h.tail]

theorem pathSegments_pathText {segs : List (List Char)} (h : SlashFree segs) :
    pathSegments (pathText segs) = segs := by
  have hsplit := splitOn_append_pathText (List.not_mem_nil) h
  rw [List.nil_append] at hsplit
  rw [pathSegments, hsplit, List.tail_cons]

/-- Texts of segments are equal only if the segments are. -/
theorem pathText_injective {segs segs' : List (List Char)} (h : SlashFree segs)
    (h' : SlashFree segs') (heq : pathText segs = pathText segs') : segs = segs' := by
  rw [← pathSegments_pathText h, heq, pathSegments_pathText h']

/-- No segment of a path has a slash. -/
theorem slashFree_splitOn (cs : List Char) : SlashFree (cs.splitOn '/') := by
  induction cs with
  | nil =>
    intro s hs
    simp at hs
    simp [hs]
  | cons c cs ih =>
    rw [List.splitOn_cons_eq_if_modifyHead]
    split_ifs with hc
    · intro s hs
      rcases List.mem_cons.mp hs with rfl | hs
      · exact List.not_mem_nil
      · exact ih s hs
    · rcases hsplit : cs.splitOn '/' with - | ⟨t, ts⟩
      · intro s hs
        cases hs
      · rw [hsplit] at ih
        intro s hs
        rw [List.modifyHead_cons] at hs
        rcases List.mem_cons.mp hs with rfl | hs
        · rw [List.mem_cons, not_or]
          exact ⟨fun heq => hc (beq_iff_eq.mpr heq.symm), ih t List.mem_cons_self⟩
        · exact ih s (List.mem_cons_of_mem _ hs)

theorem pathText_eq_intercalate (s : List Char) (segs : List (List Char)) :
    pathText (s :: segs) = '/' :: List.intercalate ['/'] (s :: segs) := by
  induction segs generalizing s with
  | nil => simp
  | cons t segs ih =>
    rw [pathText_cons, ih, List.intercalate_cons_cons]
    simp

/-- An absolute path is the text of its segments. -/
theorem pathText_pathSegments {path : List Char} (h : path.head? = some '/') :
    pathText (pathSegments path) = path := by
  rcases path with - | ⟨c, cs⟩
  · cases h
  · cases h
    have hsegs : pathSegments ('/' :: cs) = cs.splitOn '/' := by
      rw [pathSegments, List.splitOn_cons_eq_if_modifyHead]
      simp
    rw [hsegs]
    rcases hsplit : cs.splitOn '/' with - | ⟨s, segs⟩
    · exact absurd hsplit (List.splitOn_ne_nil _ _)
    · rw [pathText_eq_intercalate, ← hsplit, List.intercalate_splitOn]

theorem pathSegments_ne_nil {path : List Char} (h : path.head? = some '/') :
    pathSegments path ≠ [] := by
  intro hnil
  have hpath := pathText_pathSegments h
  rw [hnil, pathText_nil] at hpath
  rw [← hpath] at h
  cases h

theorem slashFree_pathSegments (path : List Char) : SlashFree (pathSegments path) :=
  fun s hs => slashFree_splitOn path s (List.mem_of_mem_tail hs)

/-! ### Removing dot segments -/

/-- Remove the last segment of the output and the slash in front of it. -/
def removeLastSegment (output : List Char) : List Char :=
  ((output.reverse.dropWhile (· ≠ '/')).drop 1).reverse

/-- The loop of section 5.2.4; every round shortens the input. -/
def removeDotsLoop : ℕ → List Char → List Char → List Char
  | 0, _, output => output
  | _ + 1, [], output => output
  | fuel + 1, c :: cs, output =>
      let input := c :: cs
      -- A: a leading dot segment of a relative path
      if ['.', '.', '/'] <+: input then removeDotsLoop fuel (input.drop 3) output
      else if ['.', '/'] <+: input then removeDotsLoop fuel (input.drop 2) output
      -- B: a single dot
      else if ['/', '.', '/'] <+: input then removeDotsLoop fuel (input.drop 2) output
      else if input = ['/', '.'] then removeDotsLoop fuel ['/'] output
      -- C: two dots
      else if ['/', '.', '.', '/'] <+: input then
        removeDotsLoop fuel (input.drop 3) (removeLastSegment output)
      else if input = ['/', '.', '.'] then removeDotsLoop fuel ['/'] (removeLastSegment output)
      -- D: nothing but dots
      else if input = ['.'] ∨ input = ['.', '.'] then output
      -- E: move the first segment, with its slash if it has one
      else
        removeDotsLoop fuel (cs.dropWhile (· ≠ '/')) (output ++ c :: cs.takeWhile (· ≠ '/'))

/-- The path without its dot segments. -/
def removeDotSegments (path : List Char) : List Char := removeDotsLoop path.length path []

/-- One dot or two. -/
def IsDots (s : List Char) : Prop := s = ['.'] ∨ s = ['.', '.']

instance (s : List Char) : Decidable (IsDots s) :=
  inferInstanceAs (Decidable (s = ['.'] ∨ s = ['.', '.']))

/-- One segment against the stack of the segments kept so far. -/
def dotStep (stack : List (List Char)) (s : List Char) : List (List Char) :=
  if s = ['.'] then stack else if s = ['.', '.'] then stack.dropLast else stack ++ [s]

/-- A dot segment at the end leaves the slash behind it. -/
def dotEnd (segs : List (List Char)) : List (List Char) :=
  if ∃ s ∈ segs.getLast?, IsDots s then [[]] else []

/-- The segments that are kept. -/
def keptSegments (segs : List (List Char)) : List (List Char) :=
  segs.foldl dotStep [] ++ dotEnd segs

theorem SlashFree.dotStep {stack : List (List Char)} (h : SlashFree stack) {s : List Char}
    (hs : '/' ∉ s) : SlashFree (KDown.dotStep stack s) := by
  rw [KDown.dotStep]
  split_ifs
  · exact h
  · exact fun x hx => h x ((List.dropLast_sublist _).subset hx)
  · intro x hx
    rcases List.mem_append.mp hx with hx | hx
    · exact h x hx
    · rw [List.mem_singleton.mp hx]
      exact hs

theorem SlashFree.foldl_dotStep {segs stack : List (List Char)} (h : SlashFree stack)
    (hsegs : SlashFree segs) : SlashFree (segs.foldl KDown.dotStep stack) := by
  induction segs generalizing stack with
  | nil => exact h
  | cons s segs ih => exact ih (h.dotStep (hsegs s List.mem_cons_self)) hsegs.tail

theorem slashFree_keptSegments {segs : List (List Char)} (h : SlashFree segs) :
    SlashFree (keptSegments segs) := by
  have hnil : SlashFree [] := fun s hs => by cases hs
  intro s hs
  rcases List.mem_append.mp hs with hs | hs
  · exact hnil.foldl_dotStep h s hs
  · rw [dotEnd] at hs
    split_ifs at hs
    · rw [List.mem_singleton.mp hs]
      exact List.not_mem_nil
    · cases hs

/-- No dot segment is kept. -/
theorem not_isDots_of_mem_kept {segs : List (List Char)} {s : List Char}
    (h : s ∈ keptSegments segs) : ¬ IsDots s := by
  have hstep : ∀ {stack : List (List Char)} {x : List Char}, (∀ y ∈ stack, ¬ IsDots y) →
      ∀ y ∈ dotStep stack x, ¬ IsDots y := by
    intro stack x hstack y hy
    rw [dotStep] at hy
    split_ifs at hy with h₁ h₂
    · exact hstack y hy
    · exact hstack y ((List.dropLast_sublist _).subset hy)
    · rcases List.mem_append.mp hy with hy | hy
      · exact hstack y hy
      · rw [List.mem_singleton.mp hy]
        exact fun hdots => hdots.elim h₁ h₂
  have hfold : ∀ (segs stack : List (List Char)), (∀ y ∈ stack, ¬ IsDots y) →
      ∀ y ∈ segs.foldl dotStep stack, ¬ IsDots y := by
    intro segs
    induction segs with
    | nil => exact fun _ hstack => hstack
    | cons x segs ih => exact fun stack hstack => ih _ (hstep hstack)
  rcases List.mem_append.mp h with h | h
  · exact hfold segs [] (fun y hy => by cases hy) s h
  · rw [dotEnd] at h
    split_ifs at h
    · rw [List.mem_singleton.mp h]
      decide
    · cases h

/-- Without dot segments everything is kept. -/
theorem keptSegments_eq_self {segs : List (List Char)} (h : ∀ s ∈ segs, ¬ IsDots s) :
    keptSegments segs = segs := by
  have hfold : ∀ (segs stack : List (List Char)), (∀ s ∈ segs, ¬ IsDots s) →
      segs.foldl dotStep stack = stack ++ segs := by
    intro segs
    induction segs with
    | nil => exact fun stack _ => (List.append_nil stack).symm
    | cons s segs ih =>
      intro stack hsegs
      have hs : ¬ IsDots s := hsegs s List.mem_cons_self
      rw [IsDots, not_or] at hs
      have hpush : dotStep stack s = stack ++ [s] := by rw [dotStep, if_neg hs.1, if_neg hs.2]
      rw [List.foldl_cons, hpush, ih _ fun x hx => hsegs x (List.mem_cons_of_mem _ hx),
        List.append_assoc, List.singleton_append]
  have hend : dotEnd segs = [] := by
    rw [dotEnd, if_neg]
    rintro ⟨s, hs, hdots⟩
    exact h s (List.mem_of_getLast? hs) hdots
  rw [keptSegments, hfold segs [] h, hend, List.nil_append, List.append_nil]

theorem removeLastSegment_pathText {stack : List (List Char)} (h : SlashFree stack) :
    removeLastSegment (pathText stack) = pathText stack.dropLast := by
  induction stack using List.reverseRecOn with
  | nil => rfl
  | append_singleton stack s _ =>
    have hs : '/' ∉ s := h s (by simp)
    have hdrop : (s.reverse ++ '/' :: (pathText stack).reverse).dropWhile (· ≠ '/') =
        '/' :: (pathText stack).reverse := by
      rw [List.dropWhile_append_of_pos]
      · exact List.dropWhile_cons_of_neg (by simp)
      · intro c hc
        simpa using fun heq : c = '/' => hs (heq ▸ List.mem_reverse.mp hc)
    rw [removeLastSegment, pathText_append, List.reverse_append, List.dropLast_concat]
    simp only [pathText_cons, pathText_nil, List.append_nil, List.reverse_cons, List.append_assoc,
      List.singleton_append]
    rw [hdrop, List.drop_one, List.tail_cons, List.reverse_reverse]

/-- A round on a slash and a segment that is not a dot segment. -/
theorem removeDotsLoop_segment (fuel : ℕ) {s : List Char} (hs : '/' ∉ s) (hdots : ¬ IsDots s)
    (segs : List (List Char)) (output : List Char) :
    removeDotsLoop (fuel + 1) ('/' :: (s ++ pathText segs)) output =
      removeDotsLoop fuel (pathText segs) (output ++ '/' :: s) := by
  rw [IsDots, not_or] at hdots
  -- where the segment ends, the input ends or a slash stands
  have hrest : ∀ c ∈ (pathText segs).head?, c = '/' := by
    intro c hc
    rcases segs with - | ⟨t, segs⟩
    · cases hc
    · cases hc
      rfl
  have htake : (s ++ pathText segs).takeWhile (· ≠ '/') = s := by
    rw [List.takeWhile_append_of_pos fun c hc => by
      simpa using fun heq : c = '/' => hs (heq ▸ hc)]
    rcases h : pathText segs with - | ⟨c, cs⟩
    · simp
    · rw [h] at hrest
      rw [List.takeWhile_cons_of_neg (by simp [hrest c rfl]), List.append_nil]
  have hdrop : (s ++ pathText segs).dropWhile (· ≠ '/') = pathText segs := by
    rw [List.dropWhile_append_of_pos fun c hc => by
      simpa using fun heq : c = '/' => hs (heq ▸ hc)]
    rcases h : pathText segs with - | ⟨c, cs⟩
    · rfl
    · rw [h] at hrest
      exact List.dropWhile_cons_of_neg (by simp [hrest c rfl])
  -- the dots of rules B and C would be the whole segment
  have hword : ∀ word : List Char, '/' ∉ word → word ++ ['/'] <+: s ++ pathText segs →
      s = word := by
    rintro word hword ⟨t, ht⟩
    have h₁ : (s ++ pathText segs).takeWhile (· ≠ '/') = word := by
      rw [← ht, List.append_assoc, List.takeWhile_append_of_pos fun c hc => by
        simpa using fun heq : c = '/' => hword (heq ▸ hc)]
      simp
    rw [← htake, h₁]
  have hwhole : ∀ {word : List Char}, '/' ∉ word → s ++ pathText segs = word → s = word := by
    intro word hword heq
    rw [← htake, heq]
    exact List.takeWhile_eq_self_iff.mpr fun c hc => by
      simpa using fun h : c = '/' => hword (h ▸ hc)
  rw [removeDotsLoop]
  have hA : ¬ ['.', '.', '/'] <+: '/' :: (s ++ pathText segs) := by simp
  have hA' : ¬ ['.', '/'] <+: '/' :: (s ++ pathText segs) := by simp
  have hB : ¬ ['/', '.', '/'] <+: '/' :: (s ++ pathText segs) := by
    rw [List.cons_prefix_cons]
    exact fun h => hdots.1 (hword ['.'] (by decide) h.2)
  have hB' : ¬ '/' :: (s ++ pathText segs) = ['/', '.'] := fun h =>
    hdots.1 (hwhole (by decide) (List.cons.inj h).2)
  have hC : ¬ ['/', '.', '.', '/'] <+: '/' :: (s ++ pathText segs) := by
    rw [List.cons_prefix_cons]
    exact fun h => hdots.2 (hword ['.', '.'] (by decide) h.2)
  have hC' : ¬ '/' :: (s ++ pathText segs) = ['/', '.', '.'] := fun h =>
    hdots.2 (hwhole (by decide) (List.cons.inj h).2)
  have hD : ¬ ('/' :: (s ++ pathText segs) = ['.'] ∨ '/' :: (s ++ pathText segs) = ['.', '.']) := by
    simp
  simp only [hA, hA', hB, hB', hC, hC', hD, if_false, htake, hdrop]

/-- A round on the last slash. -/
theorem removeDotsLoop_slash (fuel : ℕ) (output : List Char) :
    removeDotsLoop (fuel + 1) ['/'] output = output ++ ['/'] := by
  have h := removeDotsLoop_segment fuel (s := []) List.not_mem_nil (by decide) [] output
  rw [List.nil_append, pathText_nil] at h
  rw [h]
  rcases fuel with - | fuel <;> rfl

/-- On an absolute path the loop works off the segments one by one; the output
is the text of the stack. -/
theorem removeDotsLoop_pathText {segs stack : List (List Char)} (hsegs : SlashFree segs)
    (hstack : SlashFree stack) {fuel : ℕ} (hfuel : (pathText segs).length ≤ fuel) :
    removeDotsLoop fuel (pathText segs) (pathText stack) =
      pathText (segs.foldl dotStep stack ++ dotEnd segs) := by
  -- induction on the segments, each case being one or two rounds
  induction segs generalizing stack fuel with
  | nil =>
    rcases fuel with - | fuel <;> simp [removeDotsLoop, dotEnd]
  | cons s segs ih =>
    have hs : '/' ∉ s := hsegs s List.mem_cons_self
    rw [pathText_cons] at hfuel ⊢
    obtain ⟨fuel, rfl⟩ : ∃ n, fuel = n + 1 := Nat.exists_eq_succ_of_ne_zero (by
      rintro rfl
      simp at hfuel)
    simp only [List.length_cons, List.length_append] at hfuel
    rw [List.foldl_cons]
    have hend : segs ≠ [] → dotEnd (s :: segs) = dotEnd segs := fun hne => by
      rw [dotEnd, List.getLast?_cons_of_ne_nil hne, ← dotEnd]
    by_cases hdots : IsDots s
    · rcases segs with - | ⟨t, segs⟩
      · -- the last segment: its slash stays
        have hlast : dotEnd [s] = [[]] := if_pos ⟨s, rfl, hdots⟩
        rcases hdots with rfl | rfl
        · obtain ⟨fuel, rfl⟩ : ∃ n, fuel = n + 1 := Nat.exists_eq_succ_of_ne_zero (by
            rintro rfl
            simp at hfuel)
          rw [hlast]
          show removeDotsLoop (fuel + 1) ['/'] (pathText stack) = _
          rw [removeDotsLoop_slash]
          simp [dotStep]
        · obtain ⟨fuel, rfl⟩ : ∃ n, fuel = n + 1 := Nat.exists_eq_succ_of_ne_zero (by
            rintro rfl
            simp at hfuel)
          rw [hlast]
          show removeDotsLoop (fuel + 1) ['/'] (removeLastSegment (pathText stack)) = _
          rw [removeDotsLoop_slash, removeLastSegment_pathText hstack]
          simp [dotStep]
      · rw [hend (List.cons_ne_nil _ _)]
        rcases hdots with rfl | rfl
        · have hround : removeDotsLoop (fuel + 1) ('/' :: (['.'] ++ pathText (t :: segs)))
              (pathText stack) = removeDotsLoop fuel (pathText (t :: segs)) (pathText stack) := by
            simp [removeDotsLoop]
          rw [hround, ih hsegs.tail hstack (by omega)]
          simp [dotStep]
        · have hround : removeDotsLoop (fuel + 1) ('/' :: (['.', '.'] ++ pathText (t :: segs)))
              (pathText stack) =
              removeDotsLoop fuel (pathText (t :: segs)) (removeLastSegment (pathText stack)) := by
            simp [removeDotsLoop]
          have hpop : SlashFree stack.dropLast := fun x hx =>
            hstack x ((List.dropLast_sublist _).subset hx)
          rw [hround, removeLastSegment_pathText hstack, ih hsegs.tail hpop (by omega)]
          simp [dotStep]
    · -- any other segment moves to the output
      have hpush : dotStep stack s = stack ++ [s] := by
        rw [IsDots, not_or] at hdots
        rw [dotStep, if_neg hdots.1, if_neg hdots.2]
      have hout : pathText stack ++ '/' :: s = pathText (stack ++ [s]) := by simp
      have hpushed : SlashFree (stack ++ [s]) := hpush ▸ hstack.dotStep hs
      rw [removeDotsLoop_segment fuel hs hdots, hout, ih hsegs.tail hpushed (by omega), hpush]
      rcases segs with - | ⟨t, segs⟩
      · rw [dotEnd, dotEnd, if_neg (by simp), if_neg]
        rintro ⟨x, hx, hxdots⟩
        cases hx
        exact hdots hxdots
      · rw [hend (List.cons_ne_nil _ _)]

/-- **The dot segments of an absolute path are removed segment by segment.** -/
theorem removeDotSegments_pathText {segs : List (List Char)} (h : SlashFree segs) :
    removeDotSegments (pathText segs) = pathText (keptSegments segs) := by
  have hnil : SlashFree [] := fun s hs => by cases hs
  exact removeDotsLoop_pathText h hnil le_rfl

/-- An absolute path keeps its text exactly when it has no dot segment. -/
theorem removeDotSegments_eq_self {segs : List (List Char)} (h : SlashFree segs) :
    removeDotSegments (pathText segs) = pathText segs ↔ ∀ s ∈ segs, ¬ IsDots s := by
  rw [removeDotSegments_pathText h]
  constructor
  · intro heq s hs
    rw [← pathText_injective (slashFree_keptSegments h) h heq] at hs
    exact not_isDots_of_mem_kept hs
  · intro hdots
    rw [keptSegments_eq_self hdots]

/-! ### References -/

/-- A letter, then letters, digits and three more characters. -/
structure SchemeText (s : List Char) : Prop where
  first : ∃ c cs, s = c :: cs ∧ c.isAlpha = true
  chars : ∀ c ∈ s, c.isAlphanum = true ∨ c = '+' ∨ c = '-' ∨ c = '.'

/-- An optional component behind its mark. -/
def afterMark (mark : Char) : Option (List Char) → List Char
  | none => []
  | some t => mark :: t

/-- The authority behind its two slashes, and the path. -/
def hierarchyText (authority : Option (List Char)) (path : List Char) : List Char :=
  match authority with
  | some a => '/' :: '/' :: (a ++ path)
  | none => path

/-- A reference in its components. -/
structure UriReference where
  scheme : Option (List Char)
  authority : Option (List Char)
  path : List Char
  query : Option (List Char)
  fragment : Option (List Char)
  schemeForm : ∀ s ∈ scheme, SchemeText s
  authorityForm : ∀ a ∈ authority, ∀ c ∈ a, c ≠ '/' ∧ c ≠ '?' ∧ c ≠ '#'
  pathForm : ∀ c ∈ path, c ≠ '?' ∧ c ≠ '#'
  pathBehindAuthority : authority.isSome = true → path = [] ∨ path.head? = some '/'
  pathWithoutAuthority : authority = none → ¬ ['/', '/'] <+: path
  /-- A colon in the first segment would end a scheme. -/
  firstSegment : scheme = none → authority = none → ':' ∉ path.takeWhile (· ≠ '/')
  queryForm : ∀ q ∈ query, '#' ∉ q

namespace UriReference

/-- What stands in front of the fragment. -/
def textWithoutFragment (r : UriReference) : List Char :=
  match r.scheme with
  | some s => s ++ ':' :: (hierarchyText r.authority r.path ++ afterMark '?' r.query)
  | none => hierarchyText r.authority r.path ++ afterMark '?' r.query

/-- Component recomposition (section 5.3). -/
def text (r : UriReference) : List Char := r.textWithoutFragment ++ afterMark '#' r.fragment

end UriReference

/-- An absolute URI without a fragment, in its components. -/
structure UriTarget where
  scheme : List Char
  authority : Option (List Char)
  path : List Char
  query : Option (List Char)

namespace UriTarget

/-- The text of a target. -/
def text (t : UriTarget) : List Char :=
  t.scheme ++ ':' :: (hierarchyText t.authority t.path ++ afterMark '?' t.query)

/-- Merge a relative path with the base path (section 5.2.3). -/
def mergePath (base : UriTarget) (path : List Char) : List Char :=
  if base.authority.isSome ∧ base.path = [] then '/' :: path
  else base.path.rdropWhile (· ≠ '/') ++ path

/-- Transform a reference (section 5.2.2). -/
def resolve (base : UriTarget) (r : UriReference) : UriTarget :=
  match r.scheme, r.authority with
  | some s, authority =>
      { scheme := s
        authority := authority
        path := removeDotSegments r.path
        query := r.query }
  | none, some a =>
      { scheme := base.scheme
        authority := some a
        path := removeDotSegments r.path
        query := r.query }
  | none, none =>
      if r.path = [] then
        { base with query := r.query <|> base.query }
      else if r.path.head? = some '/' then
        { base with path := removeDotSegments r.path, query := r.query }
      else
        { base with path := removeDotSegments (base.mergePath r.path), query := r.query }

end UriTarget

end KDown
