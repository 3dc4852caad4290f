/-
KDown/PathPolicy.lean

The launch-time check of a destination (`resolve_for_launch` in path_policy.rs)
and the creation of a directory target (`ensure_destination_directory` in
supervisor/mod.rs), on a directory tree with symbolic links.

The existing part of the destination is resolved entry by entry, missing
parents are created, and then the result is compared with the canonical root.
A link that leaves the root is found out in every case, but when at least two
names are missing behind it, the first of them has been created by then.

* `launch_contained_iff`: this is the only way to an effect outside the root, and
  a destination that is returned lies inside it.
* `link_leaves_root`: the directory that is created outside.
-/
import KDown.FileTree
import KDown.Registry

namespace KDown

/-! ### Destination texts -/

/-- A segment of a path between two slashes. -/
def segmentPart (segment : List Char) : Option (PathPart (List Char)) :=
  if segment = [] ∨ segment = ['.'] then none
  else if segment = ['.', '.'] then some .parentDir
  else some (.normal segment)

/-- `Path::components`: a dot counts only in front. -/
def pathComponents (path : List Char) : List (PathPart (List Char)) :=
  match path.splitOn '/' with
  | [] => []
  | first :: rest =>
      if first = [] ∧ rest ≠ [] then .rootDir :: rest.filterMap segmentPart
      else if first = ['.'] then .curDir :: rest.filterMap segmentPart
      else (first :: rest).filterMap segmentPart

/-- The destination leads out of its root. -/
def destinationOutsideRoot : AppError := .other "destination_outside_root"

/-- The destination cannot be used. -/
def destinationUnavailable : AppError := .other "destination_unavailable"

/-- The root cannot be used. -/
def rootUnavailable : AppError := .other "root_unavailable"

/-- The destination must consist of plain names. -/
def validateRelativeComponents (relative : List Char) : Except AppError (List (List Char)) :=
  if relative.contains '\x00' then .error destinationOutsideRoot
  else
    (pathComponents relative).mapM fun component =>
      match component with
      | .normal part => .ok part
      | _ => .error destinationOutsideRoot

/-! ### The launch -/

/-- A destination, with the root it belongs to. -/
structure ResolvedDestination where
  rootId : ℕ
  canonicalRoot : List (List Char)
  destination : List (List Char)
  filenameOverride : Option String

/-- The system: how many links a path may follow, and which directories it lets
be created. -/
structure FileSystemLimits where
  links : ℕ
  creatable : List (List Char) → Bool

namespace PathPolicy

open FileTree

variable (sys : FileSystemLimits)

/-- Resolve the existing entries one by one; the rest is missing. -/
def existingPrefix (t : FileTree (List Char)) (current : List (List Char)) :
    List (List Char) → Except AppError (List (List Char) × List (List Char))
  | [] => .ok (current, [])
  | component :: rest =>
      if (t.symlinkMetadata sys.links (current ++ [component])).isSome then
        match t.canonicalize sys.links (current ++ [component]) with
        | .ok next => existingPrefix t next rest
        | .error _ => .error destinationUnavailable
      else .ok (current, component :: rest)

/-- Create the missing parents; the last name is left to the engine. -/
def prepareParents (t : FileTree (List Char)) (current missing : List (List Char)) :
    Except AppError (List (List Char)) × FileTree (List Char) :=
  match missing.getLast? with
  | none => (.ok current, t)
  | some last =>
      let parent := current ++ missing.dropLast
      match (if missing.dropLast = [] then (.ok (), t)
        else t.createDirAll sys.links sys.creatable parent) with
      | (.error _, t) => (.error destinationUnavailable, t)
      | (.ok _, t) =>
          match t.canonicalize sys.links parent with
          | .ok parent => (.ok (parent ++ [last]), t)
          | .error _ => (.error destinationUnavailable, t)

/-- `load` is the registry's answer for an enabled root. -/
def resolveForLaunch (t : FileTree (List Char)) (load : ℕ → Except AppError (List (List Char)))
    (rootId : ℕ) (relative : List Char) :
    Except AppError ResolvedDestination × FileTree (List Char) :=
  match load rootId with
  | .error e => (.error e, t)
  | .ok path =>
      match t.canonicalize sys.links path with
      | .error _ => (.error rootUnavailable, t)
      | .ok canonicalRoot =>
          match validateRelativeComponents relative with
          | .error e => (.error e, t)
          | .ok components =>
              match existingPrefix sys t canonicalRoot components with
              | .error e => (.error e, t)
              | .ok (current, missing) =>
                  match prepareParents sys t current missing with
                  | (.error e, t) => (.error e, t)
                  | (.ok destination, t) =>
                      if canonicalRoot <+: destination then
                        (.ok ⟨rootId, canonicalRoot, destination, none⟩, t)
                      else (.error destinationOutsideRoot, t)

/-- Create the destination if it is missing, and check where it leads. -/
def ensureDestinationDirectory (t : FileTree (List Char)) (resolved : ResolvedDestination) :
    Except AppError (List (List Char)) × FileTree (List Char) :=
  match (if t.pathExists sys.links resolved.destination then (.ok (), t)
    else t.createDirAll sys.links sys.creatable resolved.destination) with
  | (.error _, t) => (.error destinationUnavailable, t)
  | (.ok _, t) =>
      match t.canonicalize sys.links resolved.destination with
      | .error _ => (.error destinationUnavailable, t)
      | .ok canonical =>
          if resolved.canonicalRoot <+: canonical then (.ok canonical, t)
          else (.error destinationOutsideRoot, t)

/-- The launch of a job without a filename override. -/
def launchDirectory (t : FileTree (List Char)) (load : ℕ → Except AppError (List (List Char)))
    (rootId : ℕ) (relative : List Char) :
    Except AppError (List (List Char)) × FileTree (List Char) :=
  match resolveForLaunch sys t load rootId relative with
  | (.error e, t) => (.error e, t)
  | (.ok resolved, t) => ensureDestinationDirectory sys t resolved

/-! ### The names of a destination -/

/-- The names lead from one directory to another, resolved one at a time. -/
inductive LeadsTo (t : FileTree (List Char)) (links : ℕ) :
    List (List Char) → List (List Char) → List (List Char) → Prop
  | nil (current : List (List Char)) : LeadsTo t links current [] current
  | cons {current next last names : List (List Char)} {name : List Char}
      (hentry : t.node (current ++ [name]) ≠ none)
      (hnext : t.canonicalize links (current ++ [name]) = .ok next)
      (hrest : LeadsTo t links next names last) : LeadsTo t links current (name :: names) last

variable {sys : FileSystemLimits} {t : FileTree (List Char)} {current cur : List (List Char)}

/-- What the walk resolves, and what it leaves as missing. -/
theorem existingPrefix_spec {names missing : List (List Char)} (hcurrent : t.Canonical current)
    (h : existingPrefix sys t current names = .ok (cur, missing)) :
    t.Canonical cur ∧ (∀ first rest, missing = first :: rest → t.node (cur ++ [first]) = none) ∧
      ∃ existing, names = existing ++ missing ∧ LeadsTo t sys.links current existing cur := by
  induction names generalizing current with
  | nil =>
    obtain ⟨rfl, rfl⟩ := Prod.mk.inj (Except.ok.inj h)
    exact ⟨hcurrent, fun _ _ h => (List.cons_ne_nil _ _ h.symm).elim, [], rfl, .nil _⟩
  | cons name names ih =>
    rw [existingPrefix, symlinkMetadata_append hcurrent] at h
    split_ifs at h with hentry
    · rcases hnext : t.canonicalize sys.links (current ++ [name]) with e | next <;>
        rw [hnext] at h
      · cases h
      · obtain ⟨hcur, hmissing, existing, rfl, hleads⟩ := ih (canonical_of_canonicalize hnext) h
        exact ⟨hcur, hmissing, name :: existing, rfl,
          .cons (Option.isSome_iff_ne_none.mp hentry) hnext hleads⟩
    · obtain ⟨rfl, rfl⟩ := Prod.mk.inj (Except.ok.inj h)
      refine ⟨hcurrent, fun first rest h => ?_, [], rfl, .nil _⟩
      obtain ⟨rfl, -⟩ := List.cons.inj h
      exact Option.not_isSome_iff_eq_none.mp hentry

/-- The walk goes where the names lead, up to the first missing one. -/
theorem existingPrefix_of_leadsTo {existing rest : List (List Char)} {first : List Char}
    (hleads : LeadsTo t sys.links current existing cur) (hcurrent : t.Canonical current)
    (hfirst : t.node (cur ++ [first]) = none) :
    existingPrefix sys t current (existing ++ first :: rest) = .ok (cur, first :: rest) := by
  induction hleads with
  | nil current =>
    rw [List.nil_append, existingPrefix, symlinkMetadata_append hcurrent, hfirst]
    rfl
  | cons hentry hnext hrest ih =>
    rw [List.cons_append, existingPrefix, symlinkMetadata_append hcurrent,
      if_pos (Option.isSome_iff_ne_none.mpr hentry), hnext]
    exact ih (canonical_of_canonicalize hnext) hfirst

/-- What exists above missing names is above the first of them. -/
theorem prefix_of_missing {root names : List (List Char)} {first : List Char}
    (hroot : t.node root ≠ none) (hfirst : t.node (cur ++ [first]) = none)
    (h : root <+: cur ++ first :: names) : root <+: cur := by
  rcases List.prefix_or_prefix_of_prefix h (List.prefix_append _ _) with hcur | ⟨below, rfl⟩
  · exact hcur
  · rcases below with - | ⟨name, below⟩
    · rw [List.append_nil]
    · obtain ⟨rfl, -⟩ := List.cons_prefix_cons.mp ((List.prefix_append_right_inj cur).mp h)
      exact absurd (node_below_missing hfirst below) hroot

/-! ### Containment -/

variable (sys) (t) in
/-- The canonical path of the configured root. -/
def canonicalRootOf (load : ℕ → Except AppError (List (List Char))) (rootId : ℕ) :
    Option (List (List Char)) :=
  match load rootId with
  | .error _ => none
  | .ok path => (t.canonicalize sys.links path).toOption

variable (sys) (t) in
/-- What is returned lies inside the root, and nothing is created outside. -/
structure Contained (t' : FileTree (List Char)) (canonicalRoot : Option (List (List Char)))
    (r : Except AppError (List (List Char))) : Prop where
  inside : ∀ p, r = .ok p →
    ∃ root ∈ canonicalRoot, ∃ q, t'.canonicalize sys.links p = .ok q ∧ root <+: q
  effects : ∀ q, t.node q = none → t'.node q ≠ none → ∃ root ∈ canonicalRoot, root <+: q

variable (sys) (t) in
/-- The names lead out of the root into a directory in which two or more of them
are missing, and the system lets the first of these be created. -/
def LeavesRoot (root names : List (List Char)) : Prop :=
  ∃ existing first second rest cur, names = existing ++ first :: second :: rest ∧
    LeadsTo t sys.links root existing cur ∧ ¬ root <+: cur ∧ t.node cur = some .dir ∧
    t.node (cur ++ [first]) = none ∧ sys.creatable (cur ++ [first]) = true

variable (sys) (t) in
/-- A configured root whose destination leaves it. -/
def Escapes (load : ℕ → Except AppError (List (List Char))) (rootId : ℕ)
    (relative : List Char) : Prop :=
  ∃ root ∈ canonicalRootOf sys t load rootId, ∃ names,
    validateRelativeComponents relative = .ok names ∧ LeavesRoot sys t root names

theorem Contained.error (root : Option (List (List Char))) (e : AppError) :
    Contained sys t t root (Except.error e) where
  inside := fun _ h => by cases h
  effects := fun _ hnone hsome => absurd hnone hsome

variable {t' t'' : FileTree (List Char)} {root : List (List Char)} {first last : List Char}
  {names : List (List Char)} {r : Except AppError (List (List Char))}

/-- Directories inside the root may have been created before. -/
theorem Contained.of_effects
    (hbefore : ∀ q, t.node q = none → t'.node q ≠ none → root <+: q)
    (h : Contained sys t' t'' (some root) r) : Contained sys t t'' (some root) r where
  inside := h.inside
  effects := fun q hnone hsome => by
    rcases hmid : t'.node q with - | node
    · exact h.effects q hmid hsome
    · exact ⟨root, rfl, hbefore q hnone (by rw [hmid]; exact Option.some_ne_none _)⟩

/-! ### The parents -/

theorem prepareParents_append (parents : List (List Char)) (last : List Char) :
    prepareParents sys t cur (parents ++ [last]) =
      match (if parents = [] then (.ok (), t)
        else t.createDirAll sys.links sys.creatable (cur ++ parents)) with
      | (.error _, t) => (.error destinationUnavailable, t)
      | (.ok _, t) =>
          match t.canonicalize sys.links (cur ++ parents) with
          | .ok parent => (.ok (parent ++ [last]), t)
          | .error _ => (.error destinationUnavailable, t) := by
  have hlast : (parents ++ [last]).getLast? = some last := List.getLast?_concat ..
  rw [prepareParents, hlast]
  simp only [List.dropLast_concat]

/-- A single missing name is left to the engine. -/
theorem prepareParents_one (hcur : t.Canonical cur) (last : List Char) :
    prepareParents sys t cur [last] = (.ok (cur ++ [last]), t) := by
  rw [← List.nil_append [last], prepareParents_append, if_pos rfl, List.append_nil]
  simp only [canonicalize_canonical hcur, List.nil_append]

/-- The parents of several missing names are created, before anything is
compared with the root. -/
theorem prepareParents_many {r : Except TreeError Unit} (last : List Char)
    (hcur : t.Canonical cur) (hfirst : t.node (cur ++ [first]) = none)
    (hcreate : t.createDirAll sys.links sys.creatable (cur ++ first :: names) = (r, t')) :
    Created t t' sys.creatable cur first names r ∧
      (prepareParents sys t cur (first :: names ++ [last])).2 = t' ∧
      (∀ d, (prepareParents sys t cur (first :: names ++ [last])).1 = .ok d →
        d = cur ++ first :: names ++ [last] ∧ r = .ok ()) := by
  have hcreated : Created t t' sys.creatable cur first names r :=
    created_of_createDirAll hcur hfirst hcreate
  refine ⟨hcreated, ?_⟩
  rw [prepareParents_append, if_neg (List.cons_ne_nil _ _), hcreate]
  rcases r with e | u
  · exact ⟨rfl, fun _ h => by cases h⟩
  · have hcanonical : t'.Canonical (cur ++ first :: names) := .inl (hcreated.done rfl)
    simp only [canonicalize_canonical hcanonical]
    exact ⟨trivial, fun _ h => ⟨(Except.ok.inj h).symm, trivial⟩⟩

/-! ### The launch, by what is missing -/

variable {load : ℕ → Except AppError (List (List Char))} {rootId : ℕ} {relative : List Char}

theorem exists_of_canonicalRootOf (hroot : canonicalRootOf sys t load rootId = some root) :
    ∃ path, load rootId = .ok path ∧ t.canonicalize sys.links path = .ok root := by
  rw [canonicalRootOf] at hroot
  rcases hload : load rootId with e | path <;> rw [hload] at hroot
  · cases hroot
  · refine ⟨path, rfl, ?_⟩
    simp only at hroot
    rcases hcanonical : t.canonicalize sys.links path with e | p <;> rw [hcanonical] at hroot
    · cases hroot
    · rw [Option.some.inj hroot]

theorem canonical_of_root (hroot : canonicalRootOf sys t load rootId = some root) :
    t.Canonical root := by
  obtain ⟨path, -, hcanonical⟩ := exists_of_canonicalRootOf hroot
  exact canonical_of_canonicalize hcanonical

/-- The part of the launch after the destination has been resolved. -/
theorem launchDirectory_of_walk {missing : List (List Char)}
    (hroot : canonicalRootOf sys t load rootId = some root)
    (hnames : validateRelativeComponents relative = .ok names)
    (hwalk : existingPrefix sys t root names = .ok (cur, missing)) :
    launchDirectory sys t load rootId relative =
      match prepareParents sys t cur missing with
      | (.error e, t) => (.error e, t)
      | (.ok destination, t) =>
          if root <+: destination then
            ensureDestinationDirectory sys t ⟨rootId, root, destination, none⟩
          else (.error destinationOutsideRoot, t) := by
  obtain ⟨path, hload, hcanonical⟩ := exists_of_canonicalRootOf hroot
  rw [launchDirectory, resolveForLaunch, hload]
  simp only [hcanonical, hnames, hwalk]
  rcases prepareParents sys t cur missing with ⟨e | d, t'⟩
  · rfl
  · simp only
    split_ifs <;> rfl

/-- A directory inside the root is created and found again. -/
theorem ensureDestinationDirectory_missing (hcur : t.Canonical cur)
    (hlast : t.node (cur ++ [last]) = none) (hroot : root <+: cur) :
    Contained sys t
      (ensureDestinationDirectory sys t ⟨rootId, root, cur ++ [last], none⟩).2 (some root)
      (ensureDestinationDirectory sys t ⟨rootId, root, cur ++ [last], none⟩).1 := by
  have hexists : t.pathExists sys.links (cur ++ [last]) = false := by
    rw [pathExists, canonicalize_missing hcur hlast]
    rfl
  have hinside : root <+: cur ++ [last] := hroot.trans (List.prefix_append _ _)
  rw [ensureDestinationDirectory]
  simp only [hexists, Bool.false_eq_true, if_false]
  rcases hcreate : t.createDirAll sys.links sys.creatable (cur ++ [last]) with ⟨r, t'⟩
  have hcreated : Created t t' sys.creatable cur last [] r :=
    created_of_createDirAll hcur hlast hcreate
  have heffects : ∀ q, t.node q = none → t'.node q ≠ none → root <+: q := by
    intro q hnone hsome
    rcases hcreated.nodes q with heq | ⟨-, -, hlow, -⟩
    · exact absurd (heq.trans hnone) hsome
    · exact hinside.trans hlow
  rcases r with e | u
  · exact .of_effects heffects (.error _ _)
  · have hcanonical : t'.Canonical (cur ++ [last]) := .inl (hcreated.done rfl)
    simp only [canonicalize_canonical hcanonical, if_pos hinside]
    refine .of_effects heffects ⟨fun p h => ?_, fun _ hnone hsome => absurd hnone hsome⟩
    obtain rfl := Except.ok.inj h
    exact ⟨root, rfl, _, canonicalize_canonical hcanonical _, hinside⟩

/-- A destination that exists is compared with the root. -/
theorem ensureDestinationDirectory_present (hcur : t.Canonical cur) (hroot : root <+: cur) :
    ensureDestinationDirectory sys t ⟨rootId, root, cur, none⟩ = (.ok cur, t) := by
  have hexists : t.pathExists sys.links cur = true := by
    rw [pathExists, canonicalize_canonical hcur]
    rfl
  rw [ensureDestinationDirectory]
  simp only [hexists, if_true, canonicalize_canonical hcur, if_pos hroot]

/-- An existing destination: nothing is created. -/
theorem contained_of_existing (hcur : t.Canonical cur)
    (hroot : canonicalRootOf sys t load rootId = some root)
    (hnames : validateRelativeComponents relative = .ok names)
    (hwalk : existingPrefix sys t root names = .ok (cur, [])) :
    Contained sys t (launchDirectory sys t load rootId relative).2 (some root)
      (launchDirectory sys t load rootId relative).1 := by
  rw [launchDirectory_of_walk hroot hnames hwalk]
  show Contained sys t (if root <+: cur then _ else _ : Except AppError _ × _).2 _
    (if root <+: cur then _ else _ : Except AppError _ × _).1
  split_ifs with hinside
  · rw [ensureDestinationDirectory_present hcur hinside]
    refine ⟨fun p h => ?_, fun _ hnone hsome => absurd hnone hsome⟩
    obtain rfl := Except.ok.inj h
    exact ⟨root, rfl, _, canonicalize_canonical hcur _, hinside⟩
  · exact .error _ _

/-- One missing name: it is created by the supervisor, after the comparison. -/
theorem contained_of_one_missing (hcur : t.Canonical cur) (hlast : t.node (cur ++ [last]) = none)
    (hexists : t.node root ≠ none)
    (hroot : canonicalRootOf sys t load rootId = some root)
    (hnames : validateRelativeComponents relative = .ok names)
    (hwalk : existingPrefix sys t root names = .ok (cur, [last])) :
    Contained sys t (launchDirectory sys t load rootId relative).2 (some root)
      (launchDirectory sys t load rootId relative).1 := by
  rw [launchDirectory_of_walk hroot hnames hwalk, prepareParents_one hcur]
  simp only
  split_ifs with hinside
  · exact ensureDestinationDirectory_missing hcur hlast
      (prefix_of_missing hexists hlast hinside)
  · exact .error _ _

/-- With several missing names, the parents are created and the destination is
compared behind them. -/
theorem launch_of_parents {parents : List (List Char)} {r : Except TreeError Unit}
    (hcur : t.Canonical cur) (hfirst : t.node (cur ++ [first]) = none)
    (hroot : canonicalRootOf sys t load rootId = some root)
    (hnames : validateRelativeComponents relative = .ok names)
    (hwalk : existingPrefix sys t root names = .ok (cur, first :: parents ++ [last]))
    (hcreate : t.createDirAll sys.links sys.creatable (cur ++ first :: parents) = (r, t')) :
    Created t t' sys.creatable cur first parents r ∧
      ((∃ e, launchDirectory sys t load rootId relative = (.error e, t')) ∨
        r = .ok () ∧ root <+: cur ++ first :: parents ++ [last] ∧
        launchDirectory sys t load rootId relative =
          ensureDestinationDirectory sys t'
            ⟨rootId, root, cur ++ first :: parents ++ [last], none⟩) := by
  rw [launchDirectory_of_walk hroot hnames hwalk]
  obtain ⟨hcreated, htree, hok⟩ := prepareParents_many last hcur hfirst hcreate
  refine ⟨hcreated, ?_⟩
  rcases hprepare : prepareParents sys t cur (first :: parents ++ [last]) with ⟨e | d, t''⟩ <;>
    rw [hprepare] at htree hok <;> obtain rfl : t'' = t' := htree
  · exact .inl ⟨e, rfl⟩
  · obtain ⟨rfl, hr⟩ := hok d rfl
    simp only
    split_ifs with hinside
    · exact .inr ⟨hr, hinside, rfl⟩
    · exact .inl ⟨_, rfl⟩

/-- Several missing names: the first of them decides. -/
theorem contained_of_many_missing {parents : List (List Char)} (hcur : t.Canonical cur)
    (hfirst : t.node (cur ++ [first]) = none) (hexists : t.node root ≠ none)
    (hroot : canonicalRootOf sys t load rootId = some root)
    (hnames : validateRelativeComponents relative = .ok names)
    (hwalk : existingPrefix sys t root names = .ok (cur, first :: parents ++ [last])) :
    Contained sys t (launchDirectory sys t load rootId relative).2 (some root)
        (launchDirectory sys t load rootId relative).1 ↔
      (root <+: cur ∨ ¬ (t.node cur = some .dir ∧ sys.creatable (cur ++ [first]) = true)) := by
  rcases hcreate : t.createDirAll sys.links sys.creatable (cur ++ first :: parents) with ⟨r, t'⟩
  obtain ⟨hcreated, hlaunch⟩ := launch_of_parents hcur hfirst hroot hnames hwalk hcreate
  by_cases hinside : root <+: cur
  · -- everything that is created is below `cur`
    have heffects : ∀ q, t.node q = none → t'.node q ≠ none → root <+: q := by
      intro q hnone hsome
      rcases hcreated.nodes q with heq | ⟨-, -, hlow, -⟩
      · exact absurd (heq.trans hnone) hsome
      · exact hinside.trans ((List.prefix_append _ _).trans hlow)
    refine iff_of_true ?_ (.inl hinside)
    rcases hlaunch with ⟨e, he⟩ | ⟨rfl, -, hensure⟩
    · rw [he]
      exact .of_effects heffects (.error _ _)
    · rw [hensure]
      exact .of_effects heffects (ensureDestinationDirectory_missing (.inl (hcreated.done rfl))
        (hcreated.last_missing hfirst) (hinside.trans (List.prefix_append _ _)))
  · -- the launch fails, and what the parents needed is there
    obtain ⟨e, he⟩ : ∃ e, launchDirectory sys t load rootId relative = (.error e, t') := by
      rcases hlaunch with hfails | ⟨-, hinside', -⟩
      · exact hfails
      · rw [List.append_assoc, List.cons_append] at hinside'
        exact absurd (prefix_of_missing hexists hfirst hinside') hinside
    rw [he]
    by_cases hcan : t.node cur = some .dir ∧ sys.creatable (cur ++ [first]) = true
    · refine iff_of_false (fun h => ?_) (by simp [hinside, hcan])
      obtain ⟨root', hroot', hbelow⟩ := h.effects (cur ++ [first]) hfirst (by
        rw [hcreated.first hcan.1 hcan.2]
        exact Option.some_ne_none _)
      obtain rfl : root = root' := Option.some.inj hroot'
      exact hinside (prefix_of_missing hexists hfirst hbelow)
    · refine iff_of_true ?_ (.inr hcan)
      rw [hcreated.nothing hcan]
      exact .error _ _

/-- Without a root, plain names or a walk to the end, nothing happens. -/
theorem launchDirectory_error (h : ∀ root names, canonicalRootOf sys t load rootId = some root →
    validateRelativeComponents relative = .ok names →
    ∃ e, existingPrefix sys t root names = .error e) :
    ∃ e, launchDirectory sys t load rootId relative = (.error e, t) := by
  rw [canonicalRootOf] at h
  rw [launchDirectory, resolveForLaunch]
  rcases hload : load rootId with e | path <;> rw [hload] at h
  · exact ⟨e, rfl⟩
  · simp only at h ⊢
    rcases hcanonical : t.canonicalize sys.links path with e | root <;> rw [hcanonical] at h
    · exact ⟨rootUnavailable, rfl⟩
    · simp only
      rcases hnames : validateRelativeComponents relative with e | names
      · exact ⟨e, rfl⟩
      · obtain ⟨e, he⟩ := h root names rfl hnames
        simp only [he]
        exact ⟨e, rfl⟩

/-- Whether the names leave the root is seen at the end of the walk. -/
theorem leavesRoot_iff {missing : List (List Char)} (hroot : t.Canonical root)
    (hwalk : existingPrefix sys t root names = .ok (cur, missing)) :
    LeavesRoot sys t root names ↔ ∃ first second rest, missing = first :: second :: rest ∧
      ¬ root <+: cur ∧ t.node cur = some .dir ∧ sys.creatable (cur ++ [first]) = true := by
  constructor
  · rintro ⟨existing, first, second, rest, last, rfl, hleads, hout, hdir, hfirst, hcan⟩
    rw [existingPrefix_of_leadsTo hleads hroot hfirst] at hwalk
    obtain ⟨rfl, rfl⟩ := Prod.mk.inj (Except.ok.inj hwalk)
    exact ⟨first, second, rest, rfl, hout, hdir, hcan⟩
  · rintro ⟨first, second, rest, rfl, hout, hdir, hcan⟩
    obtain ⟨-, hmissing, existing, rfl, hleads⟩ := existingPrefix_spec hroot hwalk
    exact ⟨existing, first, second, rest, cur, rfl, hleads, hout, hdir, hmissing _ _ rfl, hcan⟩

/-- With a root and plain names. -/
theorem contained_iff_of_root (hroot : canonicalRootOf sys t load rootId = some root)
    (hnames : validateRelativeComponents relative = .ok names) :
    Contained sys t (launchDirectory sys t load rootId relative).2 (some root)
        (launchDirectory sys t load rootId relative).1 ↔
      ¬ LeavesRoot sys t root names := by
  have hcanonical : t.Canonical root := canonical_of_root hroot
  rcases hwalk : existingPrefix sys t root names with e | ⟨cur, missing⟩
  · have herror : ∃ e, launchDirectory sys t load rootId relative = (.error e, t) := by
      apply launchDirectory_error
      intro root' names' hroot' hnames'
      obtain rfl : root = root' := Option.some.inj (hroot.symm.trans hroot')
      obtain rfl : names = names' := Except.ok.inj (hnames.symm.trans hnames')
      exact ⟨e, hwalk⟩
    obtain ⟨e', he'⟩ := herror
    rw [he']
    refine iff_of_true (.error _ _) ?_
    rintro ⟨existing, first, second, rest, last, rfl, hleads, -, -, hfirst, -⟩
    rw [existingPrefix_of_leadsTo hleads hcanonical hfirst] at hwalk
    cases hwalk
  · rw [leavesRoot_iff hcanonical hwalk]
    obtain ⟨hcur, hmissing, -⟩ := existingPrefix_spec hcanonical hwalk
    rcases missing with - | ⟨first, missing⟩
    · refine iff_of_true (contained_of_existing hcur hroot hnames hwalk) ?_
      rintro ⟨_, _, _, h, -⟩
      cases h
    · have hfirst : t.node (cur ++ [first]) = none := hmissing first missing rfl
      rcases List.eq_nil_or_concat missing with rfl | ⟨parents, last, rfl⟩
      · refine iff_of_true
          (contained_of_one_missing hcur hfirst hcanonical.ne_none hroot hnames hwalk) ?_
        rintro ⟨_, _, _, h, -⟩
        cases h
      · rw [List.concat_eq_append] at hwalk ⊢
        rw [contained_of_many_missing hcur hfirst hcanonical.ne_none hroot hnames hwalk]
        constructor
        · rintro h ⟨first', second, rest, heq, hout, hdir, hcan⟩
          obtain ⟨rfl, -⟩ := List.cons.inj heq
          exact h.elim hout fun hno => hno ⟨hdir, hcan⟩
        · intro h
          by_contra! hno
          obtain ⟨second, rest, heq⟩ := List.exists_cons_of_ne_nil
            (List.append_ne_nil_of_right_ne_nil parents (List.cons_ne_nil last []))
          exact h ⟨first, second, rest, by rw [heq], hno.1, hno.2.1, hno.2.2⟩

/-- **A launch stays in its root.**  The launch creates something outside the
root only when the names lead out of it and two or more are missing there. -/
theorem launch_contained_iff (sys : FileSystemLimits) (t : FileTree (List Char))
    (load : ℕ → Except AppError (List (List Char))) (rootId : ℕ) (relative : List Char) :
    Contained sys t (launchDirectory sys t load rootId relative).2
        (canonicalRootOf sys t load rootId) (launchDirectory sys t load rootId relative).1 ↔
      ¬ Escapes sys t load rootId relative := by
  rcases hroot : canonicalRootOf sys t load rootId with - | root
  · have herror : ∃ e, launchDirectory sys t load rootId relative = (.error e, t) := by
      apply launchDirectory_error
      intro root names hsome
      rw [hroot] at hsome
      cases hsome
    obtain ⟨e, he⟩ := herror
    rw [he]
    refine iff_of_true (.error _ _) ?_
    rintro ⟨root, hsome, -⟩
    rw [hroot] at hsome
    cases hsome
  · rcases hnames : validateRelativeComponents relative with e | names
    · have herror : ∃ e, launchDirectory sys t load rootId relative = (.error e, t) := by
        apply launchDirectory_error
        intro root names _ hok
        rw [hnames] at hok
        cases hok
      obtain ⟨e', he'⟩ := herror
      rw [he']
      refine iff_of_true (.error _ _) ?_
      rintro ⟨root, -, names, hok, -⟩
      rw [hnames] at hok
      cases hok
    · rw [contained_iff_of_root hroot hnames, not_iff_not]
      constructor
      · exact fun h => ⟨root, hroot, names, hnames, h⟩
      · rintro ⟨root', hroot', names', hnames', h⟩
        obtain rfl : root = root' := Option.some.inj (hroot.symm.trans hroot')
        obtain rfl : names = names' := Except.ok.inj (hnames.symm.trans hnames')
        exact h

/-! ### A directory outside the root -/

/-- The root `/r` with a link `/r/l` to the directory `/o`. -/
def linkedTree : FileTree (List Char) where
  node p :=
    if p = [] ∨ p = [['r']] ∨ p = [['o']] then some .dir
    else if p = [['r'], ['l']] then some (.link [.rootDir, .normal ['o']])
    else none
  root := rfl
  parent := fun p name h => by
    rcases p with - | ⟨first, - | ⟨second, rest⟩⟩
    · rfl
    · by_cases hlink : [first] ++ [name] = [['r'], ['l']]
      · obtain ⟨rfl, -⟩ := List.cons.inj hlink
        rfl
      · exact absurd (by simp_all) h
    · exact absurd (by simp) h

/-- A system that lets everything be created. -/
def permissive : FileSystemLimits := ⟨40, fun _ => true⟩

/-- The launch to `l/a/b` is refused, and `/o/a` is there. -/
theorem link_leaves_root :
    ¬ Contained permissive linkedTree
      (launchDirectory permissive linkedTree (fun _ => .ok [['r']]) 0 "l/a/b".toList).2
      (canonicalRootOf permissive linkedTree (fun _ => .ok [['r']]) 0)
      (launchDirectory permissive linkedTree (fun _ => .ok [['r']]) 0 "l/a/b".toList).1 := by
  intro h
  have hroot : canonicalRootOf permissive linkedTree (fun _ => .ok [['r']]) 0 = some [['r']] := by
    decide +kernel
  have hcreated : (launchDirectory permissive linkedTree (fun _ => .ok [['r']]) 0
      "l/a/b".toList).2.node [['o'], ['a']] = some .dir := by decide +kernel
  rw [hroot] at h
  obtain ⟨root, hsome, hwalk⟩ := h.effects [['o'], ['a']] rfl (by
    rw [hcreated]
    exact Option.some_ne_none _)
  obtain rfl : [['r']] = root := Option.some.inj hsome
  revert hwalk
  decide

end PathPolicy

end KDown
