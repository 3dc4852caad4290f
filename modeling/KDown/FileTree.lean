/-
KDown/FileTree.lean

Directory trees with symbolic links: resolution of paths and creation of
directories.

A path is an absolute one, the list of its names.  `canonicalize` resolves it
entry by entry, as the system does: a link is replaced by its target, in front
of what is left of the path, and only so many links are followed.  `mkdir`
creates one directory and `createDirAll` what is missing of a path.  Which
directories the system lets be created is a parameter (permissions, the length
of a name, a file system without space).

What is canonical resolves to itself (`canonicalize_canonical`), and
`createDirAll_spec` says for a canonical directory and missing names below it
which directories are created.
-/
import Mathlib.Data.List.Induction
import Mathlib.Data.List.Infix
import Mathlib.Logic.Function.Basic
import Mathlib.Tactic.Common

namespace KDown

/-- A component of a path. -/
inductive PathPart (ν : Type*)
  | rootDir
  | curDir
  | parentDir
  | normal (name : ν)
  deriving DecidableEq, Repr

/-- What stands at a path. -/
inductive FileNode (ν : Type*)
  | dir
  | file
  | link (target : List (PathPart ν))
  deriving DecidableEq

/-- What stands at each path; entries stand in directories. -/
structure FileTree (ν : Type*) where
  node : List ν → Option (FileNode ν)
  root : node [] = some .dir
  parent : ∀ p name, node (p ++ [name]) ≠ none → node p = some .dir

namespace FileTree

/-- Why an operation fails. -/
inductive TreeError
  | notFound
  | alreadyExists
  | notADirectory
  /-- Too many links. -/
  | loop
  | denied
  deriving DecidableEq, Repr

variable {ν : Type*}

/-! ### Resolution -/

/-- Resolve the parts from the directory `cwd`, up to the first link. -/
def walk (t : FileTree ν) (onLink : List ν → List (PathPart ν) → Except TreeError (List ν)) :
    List ν → List (PathPart ν) → Except TreeError (List ν)
  | cwd, [] => .ok cwd
  | _, .rootDir :: rest => t.walk onLink [] rest
  | cwd, .curDir :: rest => t.walk onLink cwd rest
  | cwd, .parentDir :: rest => t.walk onLink cwd.dropLast rest
  | cwd, .normal name :: rest =>
      match t.node (cwd ++ [name]) with
      | none => .error .notFound
      | some .dir => t.walk onLink (cwd ++ [name]) rest
      | some .file => if rest.isEmpty then .ok (cwd ++ [name]) else .error .notADirectory
      | some (.link target) => onLink cwd (target ++ rest)

/-- Resolve the parts, following at most so many links. -/
def resolve (t : FileTree ν) : ℕ → List ν → List (PathPart ν) → Except TreeError (List ν)
  | 0 => t.walk fun _ _ => .error .loop
  | links + 1 => t.walk (t.resolve links)

/-- The path without links, if it leads somewhere. -/
def canonicalize (t : FileTree ν) (links : ℕ) (path : List ν) : Except TreeError (List ν) :=
  t.resolve links [] (path.map .normal)

/-- The entry itself, where the last name is not followed. -/
def symlinkMetadata (t : FileTree ν) (links : ℕ) (path : List ν) : Option (FileNode ν) :=
  match path.getLast? with
  | none => some .dir
  | some name =>
      match t.canonicalize links path.dropLast with
      | .ok dir => t.node (dir ++ [name])
      | .error _ => none

/-! ### Creation -/

section Create

variable [DecidableEq ν]

/-- The path leads to a directory. -/
def isDir (t : FileTree ν) (links : ℕ) (path : List ν) : Bool :=
  match t.canonicalize links path with
  | .ok p => t.node p = some .dir
  | .error _ => false

/-- The path leads somewhere. -/
def pathExists (t : FileTree ν) (links : ℕ) (path : List ν) : Bool :=
  (t.canonicalize links path).isOk

/-- A new directory in a directory. -/
def insertDir (t : FileTree ν) (dir : List ν) (name : ν) (hdir : t.node dir = some .dir) :
    FileTree ν where
  node := Function.update t.node (dir ++ [name]) (some .dir)
  root := by
    rw [Function.update_of_ne (by simp)]
    exact t.root
  parent := fun p name' h => by
    rcases eq_or_ne (p ++ [name']) (dir ++ [name]) with heq | hne
    · obtain ⟨rfl, -⟩ := List.append_inj' heq rfl
      rw [Function.update_of_ne fun hself => by simpa using congrArg List.length hself]
      exact hdir
    · rw [Function.update_of_ne hne] at h
      have hp := t.parent p name' h
      rcases eq_or_ne p (dir ++ [name]) with rfl | hne'
      · exact Function.update_self ..
      · rw [Function.update_of_ne hne']
        exact hp

/-- Create one directory; its parent is resolved. -/
def mkdir (t : FileTree ν) (links : ℕ) (creatable : List ν → Bool) (path : List ν) :
    Except TreeError (FileTree ν) :=
  match path.getLast? with
  | none => .error .alreadyExists
  | some name =>
      match t.canonicalize links path.dropLast with
      | .error e => .error e
      | .ok dir =>
          if hdir : t.node dir = some .dir then
            if (t.node (dir ++ [name])).isSome then .error .alreadyExists
            else if creatable (dir ++ [name]) then .ok (t.insertDir dir name hdir)
            else .error .denied
          else .error .notADirectory

/-- Create a path and what is missing of its parents.  The names are given in
reverse. -/
def createDirAllRev (t : FileTree ν) (links : ℕ) (creatable : List ν → Bool) :
    List ν → Except TreeError Unit × FileTree ν
  | [] => (.ok (), t)
  | name :: up =>
      match t.mkdir links creatable (name :: up).reverse with
      | .ok t' => (.ok (), t')
      | .error .notFound =>
          match t.createDirAllRev links creatable up with
          | (.error e, t') => (.error e, t')
          | (.ok _, t') =>
              match t'.mkdir links creatable (name :: up).reverse with
              | .ok t'' => (.ok (), t'')
              | .error e =>
                  if t'.isDir links (name :: up).reverse then (.ok (), t') else (.error e, t')
      | .error e => if t.isDir links (name :: up).reverse then (.ok (), t) else (.error e, t)

/-- Create the directory and those above it that are missing. -/
def createDirAll (t : FileTree ν) (links : ℕ) (creatable : List ν → Bool) (path : List ν) :
    Except TreeError Unit × FileTree ν :=
  t.createDirAllRev links creatable path.reverse

end Create

/-! ### Canonical paths -/

variable {t : FileTree ν} {links : ℕ} {cwd p q : List ν}

/-- The path exists and its last entry is no link. -/
def Canonical (t : FileTree ν) (p : List ν) : Prop :=
  t.node p = some .dir ∨ t.node p = some .file

theorem Canonical.ne_none (h : t.Canonical p) : t.node p ≠ none := by
  rcases h with h | h <;> rw [h] <;> exact Option.some_ne_none _

/-- What is above an entry is a directory. -/
theorem dir_of_append (h : t.node (p ++ q) ≠ none) (hq : q ≠ []) : t.node p = some .dir := by
  induction q using List.reverseRecOn with
  | nil => exact absurd rfl hq
  | append_singleton q name ih =>
    rw [← List.append_assoc] at h
    have hdir := t.parent _ name h
    rcases eq_or_ne q [] with rfl | hne
    · rwa [List.append_nil] at hdir
    · exact ih (by rw [hdir]; exact Option.some_ne_none _) hne

/-- The parts of a directory are walked through. -/
theorem walk_append {onLink : List ν → List (PathPart ν) → Except TreeError (List ν)}
    (h : t.node (cwd ++ q) = some .dir) (parts : List (PathPart ν)) :
    t.walk onLink cwd (q.map .normal ++ parts) = t.walk onLink (cwd ++ q) parts := by
  induction q generalizing cwd with
  | nil => rw [List.append_nil, List.map_nil, List.nil_append]
  | cons name q ih =>
    have hsplit : cwd ++ name :: q = (cwd ++ [name]) ++ q := by simp
    have hdir : t.node (cwd ++ [name]) = some .dir := by
      rcases eq_or_ne q [] with rfl | hne
      · exact h
      · rw [hsplit] at h
        exact dir_of_append (by rw [h]; exact Option.some_ne_none _) hne
    rw [List.map_cons, List.cons_append, walk, hdir]
    show t.walk onLink (cwd ++ [name]) (q.map .normal ++ parts) = _
    rw [hsplit] at h ⊢
    exact ih h

theorem resolve_eq_walk (t : FileTree ν) (links : ℕ) :
    ∃ onLink, t.resolve links = t.walk onLink := by
  cases links with
  | zero => exact ⟨_, rfl⟩
  | succ links => exact ⟨_, rfl⟩

/-- **A canonical path resolves to itself, whatever the links.** -/
theorem canonicalize_canonical (h : t.Canonical p) (links : ℕ) :
    t.canonicalize links p = .ok p := by
  obtain ⟨onLink, hwalk⟩ := t.resolve_eq_walk links
  rw [canonicalize, hwalk]
  rcases h with hdir | hfile
  · have hall : t.walk onLink [] (p.map .normal ++ []) = t.walk onLink p [] :=
      walk_append hdir []
    rw [List.append_nil] at hall
    exact hall
  · induction p using List.reverseRecOn with
    | nil =>
      rw [t.root] at hfile
      cases hfile
    | append_singleton p name _ =>
      have hdir := t.parent p name (by rw [hfile]; exact Option.some_ne_none _)
      have hall : t.walk onLink [] (p.map .normal ++ [.normal name]) =
          t.walk onLink p [.normal name] := walk_append hdir _
      rw [List.map_append]
      refine hall.trans ?_
      rw [walk, hfile]
      rfl

/-- What a path resolves to is canonical. -/
theorem canonical_of_resolve {parts : List (PathPart ν)} (hcwd : t.node cwd = some .dir)
    (h : t.resolve links cwd parts = .ok p) : t.Canonical p := by
  have hwalk : ∀ onLink : List ν → List (PathPart ν) → Except TreeError (List ν),
      (∀ cwd parts, t.node cwd = some .dir → onLink cwd parts = .ok p → t.Canonical p) →
      ∀ parts cwd, t.node cwd = some .dir → t.walk onLink cwd parts = .ok p → t.Canonical p := by
    intro onLink hlink parts
    induction parts with
    | nil =>
      intro cwd hcwd h
      rw [← Except.ok.inj h]
      exact .inl hcwd
    | cons part parts ih =>
      intro cwd hcwd h
      rcases part with - | - | - | name
      · exact ih [] t.root h
      · exact ih cwd hcwd h
      · refine ih cwd.dropLast ?_ h
        rcases List.eq_nil_or_concat cwd with rfl | ⟨up, name, rfl⟩
        · exact t.root
        · rw [List.concat_eq_append, List.dropLast_concat]
          rw [List.concat_eq_append] at hcwd
          exact t.parent up name (by rw [hcwd]; exact Option.some_ne_none _)
      · rw [walk] at h
        rcases hnode : t.node (cwd ++ [name]) with - | ⟨- | - | target⟩ <;> rw [hnode] at h
        · cases h
        · exact ih _ hnode h
        · simp only at h
          split_ifs at h
          rw [← Except.ok.inj h]
          exact .inr hnode
        · exact hlink cwd _ hcwd h
  induction links generalizing cwd parts with
  | zero => exact hwalk _ (fun _ _ _ h => by cases h) parts cwd hcwd h
  | succ links ih => exact hwalk _ (fun _ _ hdir h => ih hdir h) parts cwd hcwd h

/-- The entry of a canonical directory. -/
theorem symlinkMetadata_append (hp : t.Canonical p) (links : ℕ) (name : ν) :
    t.symlinkMetadata links (p ++ [name]) = t.node (p ++ [name]) := by
  have hlast : (p ++ [name]).getLast? = some name := List.getLast?_concat ..
  rw [symlinkMetadata, hlast]
  simp only [List.dropLast_concat, canonicalize_canonical hp]

theorem canonical_of_canonicalize (h : t.canonicalize links q = .ok p) : t.Canonical p :=
  canonical_of_resolve t.root h

/-! ### Missing names -/

variable {cur names : List ν} {m : ν}

theorem isSome_of_append (h : t.node (p ++ q) ≠ none) : t.node p ≠ none := by
  rcases eq_or_ne q [] with rfl | hq
  · rwa [List.append_nil] at h
  · rw [dir_of_append h hq]
    exact Option.some_ne_none _

/-- Nothing is below a missing entry. -/
theorem node_below_missing (hnone : t.node (cur ++ [m]) = none) (names : List ν) :
    t.node (cur ++ m :: names) = none := by
  by_contra hne
  rw [show cur ++ m :: names = (cur ++ [m]) ++ names by simp] at hne
  exact isSome_of_append hne hnone

section Create

variable [DecidableEq ν] {creatable : List ν → Bool}

/-- A path through a missing entry is not found, or leads through a file. -/
theorem canonicalize_missing (hcur : t.Canonical cur) (hnone : t.node (cur ++ [m]) = none)
    (names : List ν) (links : ℕ) :
    t.canonicalize links (cur ++ m :: names) =
      .error (if t.node cur = some .dir then .notFound else .notADirectory) := by
  obtain ⟨onLink, hwalk⟩ := t.resolve_eq_walk links
  rw [canonicalize, hwalk, List.map_append]
  rcases hcur with hdir | hfile
  · have hall : t.walk onLink [] (cur.map .normal ++ (m :: names).map .normal) =
        t.walk onLink cur ((m :: names).map .normal) := walk_append hdir _
    rw [hall, List.map_cons, walk, hnone, if_pos hdir]
  · rcases List.eq_nil_or_concat cur with rfl | ⟨up, name, rfl⟩
    · rw [t.root] at hfile
      cases hfile
    · rw [List.concat_eq_append] at hfile ⊢
      have hdir := t.parent up name (by rw [hfile]; exact Option.some_ne_none _)
      have hall : t.walk onLink [] (up.map .normal ++ .normal name :: (m :: names).map .normal) =
          t.walk onLink up (.normal name :: (m :: names).map .normal) := walk_append hdir _
      rw [List.map_append, List.append_assoc]
      refine hall.trans ?_
      rw [walk, hfile, if_neg (by simp)]
      rfl

theorem isDir_missing (hcur : t.Canonical cur) (hnone : t.node (cur ++ [m]) = none)
    (names : List ν) : t.isDir links (cur ++ m :: names) = false := by
  rw [isDir, canonicalize_missing hcur hnone]

theorem mkdir_of_canonical {name : ν} (hp : t.Canonical p) (hnone : t.node (p ++ [name]) = none) :
    t.mkdir links creatable (p ++ [name]) =
      if hdir : t.node p = some .dir then
        if creatable (p ++ [name]) then .ok (t.insertDir p name hdir) else .error .denied
      else .error .notADirectory := by
  have hlast : (p ++ [name]).getLast? = some name := List.getLast?_concat ..
  have hparent : t.canonicalize links (p ++ [name]).dropLast = .ok p := by
    rw [List.dropLast_concat, canonicalize_canonical hp]
  rw [mkdir, hlast]
  simp only [hparent, hnone, Option.isSome_none, Bool.false_eq_true, if_false]

theorem mkdir_missing {name : ν} (hcur : t.Canonical cur) (hnone : t.node (cur ++ [m]) = none)
    (names : List ν) :
    t.mkdir links creatable (cur ++ m :: names ++ [name]) =
      .error (if t.node cur = some .dir then .notFound else .notADirectory) := by
  have hlast : (cur ++ m :: names ++ [name]).getLast? = some name := List.getLast?_concat ..
  have hparent : t.canonicalize links (cur ++ m :: names ++ [name]).dropLast =
      .error (if t.node cur = some .dir then .notFound else .notADirectory) := by
    rw [List.dropLast_concat, canonicalize_missing hcur hnone]
  rw [mkdir, hlast]
  simp only [hparent]

/-- What `createDirAll` does to missing names below a canonical path. -/
structure Created (t t' : FileTree ν) (creatable : List ν → Bool) (cur : List ν) (m : ν)
    (names : List ν) (r : Except TreeError Unit) : Prop where
  /-- Nothing changes but missing entries of the path, which become
  directories. -/
  nodes : ∀ q, t'.node q = t.node q ∨
    t.node q = none ∧ t'.node q = some .dir ∧ cur ++ [m] <+: q ∧ q <+: cur ++ m :: names
  done : r = .ok () → t'.node (cur ++ m :: names) = some .dir
  /-- The first entry is created if it can be. -/
  first : t.node cur = some .dir → creatable (cur ++ [m]) = true →
    t'.node (cur ++ [m]) = some .dir
  nothing : ¬ (t.node cur = some .dir ∧ creatable (cur ++ [m]) = true) → t' = t

omit [DecidableEq ν] in
theorem Created.refused {e : TreeError}
    (h : ¬ (t.node cur = some .dir ∧ creatable (cur ++ [m]) = true)) :
    Created t t creatable cur m names (.error e) where
  nodes := fun _ => .inl rfl
  done := fun h => by cases h
  first := fun hdir hcan => absurd ⟨hdir, hcan⟩ h
  nothing := fun _ => rfl

theorem createDirAll_append {name : ν} (t : FileTree ν) (p : List ν) :
    t.createDirAll links creatable (p ++ [name]) =
      match t.mkdir links creatable (p ++ [name]) with
      | .ok t' => (.ok (), t')
      | .error .notFound =>
          match t.createDirAll links creatable p with
          | (.error e, t') => (.error e, t')
          | (.ok _, t') =>
              match t'.mkdir links creatable (p ++ [name]) with
              | .ok t'' => (.ok (), t'')
              | .error e =>
                  if t'.isDir links (p ++ [name]) then (.ok (), t') else (.error e, t')
      | .error e => if t.isDir links (p ++ [name]) then (.ok (), t) else (.error e, t) := by
  rw [createDirAll, List.reverse_concat, createDirAllRev, List.reverse_cons, List.reverse_reverse]
  rfl

theorem node_insertDir {name : ν} (hdir : t.node p = some .dir) (q : List ν) :
    (t.insertDir p name hdir).node q = if q = p ++ [name] then some .dir else t.node q :=
  Function.update_apply ..

omit [DecidableEq ν] in
/-- The last name is still missing when its parents are there. -/
theorem Created.last_missing {t' : FileTree ν} {r : Except TreeError Unit} {name : ν}
    (h : Created t t' creatable cur m names r) (hnone : t.node (cur ++ [m]) = none) :
    t'.node (cur ++ m :: names ++ [name]) = none := by
  rcases h.nodes (cur ++ m :: names ++ [name]) with heq | ⟨-, -, -, hpath⟩
  · rw [heq, List.append_assoc, List.cons_append]
    exact node_below_missing hnone _
  · have hlen := hpath.length_le
    rw [List.length_append, List.length_singleton] at hlen
    omega

omit [DecidableEq ν] in
/-- A refusal further down. -/
theorem Created.extend_error {t' : FileTree ν} {r : Except TreeError Unit} {e : TreeError}
    {name : ν} (h : Created t t' creatable cur m names r) :
    Created t t' creatable cur m (names ++ [name]) (.error e) where
  nodes := fun q => by
    rcases h.nodes q with heq | ⟨hno, hdir, hlow, hup⟩
    · exact .inl heq
    · refine .inr ⟨hno, hdir, hlow, hup.trans ?_⟩
      rw [← List.cons_append, ← List.append_assoc]
      exact List.prefix_append _ _
  done := fun h => by cases h
  first := h.first
  nothing := h.nothing

/-- The next directory below the created ones. -/
theorem Created.extend_ok {t' : FileTree ν} {name : ν}
    (h : Created t t' creatable cur m names (.ok ())) (hnone : t.node (cur ++ [m]) = none)
    (hdir : t'.node (cur ++ m :: names) = some .dir) :
    Created t (t'.insertDir (cur ++ m :: names) name hdir) creatable cur m (names ++ [name])
      (.ok ()) where
  nodes := fun q => by
    rw [node_insertDir]
    split_ifs with hq
    · refine .inr ⟨?_, rfl, ?_, ?_⟩
      · rw [hq, List.append_assoc, List.cons_append]
        exact node_below_missing hnone _
      · rw [hq]
        exact ⟨names ++ [name], by simp⟩
      · rw [hq]
        exact ⟨[], by simp⟩
    · exact h.extend_error (e := .denied).nodes q
  done := fun _ => by
    rw [node_insertDir, if_pos (by simp)]
  first := fun hcur hcan => by
    rw [node_insertDir, h.first hcur hcan, ite_self]
  nothing := fun hno => by
    have hsame := h.nothing hno
    rw [hsame, node_below_missing hnone] at hdir
    cases hdir

/-- Below a canonical path with a missing name, the directories are created in
order, as far as the system lets. -/
theorem createDirAll_spec (hcur : t.Canonical cur) (hnone : t.node (cur ++ [m]) = none)
    (names : List ν) :
    Created t (t.createDirAll links creatable (cur ++ m :: names)).2 creatable cur m names
      (t.createDirAll links creatable (cur ++ m :: names)).1 := by
  induction names using List.reverseRecOn with
  | nil =>
    have hisDir : t.isDir links (cur ++ [m]) = false := isDir_missing hcur hnone []
    rw [createDirAll_append, mkdir_of_canonical hcur hnone]
    simp only [hisDir, Bool.false_eq_true, if_false]
    split_ifs with hdir hcan
    · refine ⟨fun q => ?_, fun _ => ?_, fun _ _ => ?_, fun hno => absurd ⟨hdir, hcan⟩ hno⟩
      · simp only [node_insertDir]
        split_ifs with hq
        · exact .inr ⟨hq ▸ hnone, rfl, hq ▸ List.prefix_refl _, hq ▸ List.prefix_refl _⟩
        · exact .inl rfl
      · simp only [node_insertDir, if_true]
      · simp only [node_insertDir, if_true]
    · exact .refused fun h => hcan h.2
    · exact .refused fun h => hdir h.1
  | append_singleton names name ih =>
    have hpath : cur ++ m :: (names ++ [name]) = cur ++ m :: names ++ [name] := by simp
    have hisDir : t.isDir links (cur ++ m :: (names ++ [name])) = false :=
      isDir_missing hcur hnone _
    rw [hpath] at hisDir ⊢
    rw [createDirAll_append, mkdir_missing hcur hnone]
    simp only [hisDir, Bool.false_eq_true, if_false]
    split_ifs with hdir
    · rcases hparents : t.createDirAll links creatable (cur ++ m :: names) with ⟨e | u, t'⟩ <;>
        rw [hparents] at ih
      · exact ih.extend_error
      · -- the parents are there: one more directory
        have hdone : t'.node (cur ++ m :: names) = some .dir := ih.done rfl
        have hlast : t'.node (cur ++ m :: names ++ [name]) = none := ih.last_missing hnone
        have hcanonical : t'.Canonical (cur ++ m :: names) := .inl hdone
        have hisDir' : t'.isDir links (cur ++ m :: names ++ [name]) = false :=
          isDir_missing hcanonical hlast []
        simp only [mkdir_of_canonical hcanonical hlast, dif_pos hdone, hisDir',
          Bool.false_eq_true, if_false]
        split_ifs with hcan
        · exact ih.extend_ok hnone hdone
        · exact ih.extend_error
    · exact .refused fun h => hdir h.1

theorem created_of_createDirAll {t' : FileTree ν} {r : Except TreeError Unit}
    (hcur : t.Canonical cur) (hnone : t.node (cur ++ [m]) = none)
    (hcreate : t.createDirAll links creatable (cur ++ m :: names) = (r, t')) :
    Created t t' creatable cur m names r := by
  have hspec : Created t (t.createDirAll links creatable (cur ++ m :: names)).2 creatable cur m
      names (t.createDirAll links creatable (cur ++ m :: names)).1 :=
    createDirAll_spec hcur hnone names
  rwa [hcreate] at hspec

end Create

end FileTree

end KDown
