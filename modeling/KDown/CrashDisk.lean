/-
KDown/CrashDisk.lean

A directory of files that survives crashes.

Programs see the entries and contents as they were last changed.  What a crash
leaves is less certain: a name may go back to any entry it had since the
directory was last synced, and the content of a file that was not synced may
be anything.  Renames are atomic: the target goes over from its old entry to
the new one, and at no moment has none.

Files are told apart by the handle they were created with, so that an entry
says which file it leads to and not only what the file holds.  `Possible d k v`
says that `v` is the entry of `k`, or may be after a crash; the lemmas say what
each operation adds to it.
-/
import Mathlib.Data.List.Basic
import Mathlib.Logic.Function.Basic
import Mathlib.Tactic.Common

namespace KDown

/-- A file: what it holds, and whether that is on the disk. -/
structure DiskFile (β : Type*) where
  content : β
  /-- The content is sure to survive. -/
  synced : Bool

/-- A directory and its files, with what a crash may make of them. -/
structure CrashDisk (κ ι β : Type*) where
  /-- The directory, as programs see it. -/
  entries : κ → Option ι
  /-- Entries that a crash may bring back: those since the last sync. -/
  older : κ → List (Option ι)
  files : ι → DiskFile β

namespace CrashDisk

variable {κ ι β : Type*}

/-- An empty directory; no handle leads to anything yet. -/
def empty (blank : β) : CrashDisk κ ι β where
  entries := fun _ => none
  older := fun _ => []
  files := fun _ => ⟨blank, true⟩

/-- What a read through a name yields. -/
def read (d : CrashDisk κ ι β) (k : κ) : Option β :=
  (d.entries k).map fun i => (d.files i).content

/-- Make all entries durable. -/
def syncDir (d : CrashDisk κ ι β) : CrashDisk κ ι β := { d with older := fun _ => [] }

/-- The disk after a crash: `pick` chooses the entries, `torn` the contents that
were not synced. -/
def crash (d : CrashDisk κ ι β) (pick : κ → ℕ) (torn : ι → β) : CrashDisk κ ι β where
  entries := fun k => (d.entries k :: d.older k).getD (pick k) (d.entries k)
  older := fun _ => []
  files := fun i => if (d.files i).synced then d.files i else ⟨torn i, true⟩

section Updates

variable [DecidableEq κ] [DecidableEq ι]

/-- The entry is changed, and the old one may come back. -/
def setEntry (d : CrashDisk κ ι β) (k : κ) (v : Option ι) : CrashDisk κ ι β :=
  { d with
    entries := Function.update d.entries k v
    older := Function.update d.older k (d.entries k :: d.older k) }

/-- The file is replaced. -/
def setFile (d : CrashDisk κ ι β) (i : ι) (f : DiskFile β) : CrashDisk κ ι β :=
  { d with files := Function.update d.files i f }

/-- A new file under a name. -/
def create (d : CrashDisk κ ι β) (k : κ) (i : ι) (blank : β) : CrashDisk κ ι β :=
  (d.setFile i ⟨blank, false⟩).setEntry k (some i)

/-- The content is replaced, and not yet synced. -/
def write (d : CrashDisk κ ι β) (i : ι) (content : β) : CrashDisk κ ι β :=
  d.setFile i ⟨content, false⟩

/-- The content is synced. -/
def syncFile (d : CrashDisk κ ι β) (i : ι) : CrashDisk κ ι β :=
  d.setFile i ⟨(d.files i).content, true⟩

/-- Move an entry to another name, in place of what is there. -/
def rename (d : CrashDisk κ ι β) (source target : κ) : CrashDisk κ ι β :=
  (d.setEntry target (d.entries source)).setEntry source none

/-- The entry is removed. -/
def unlink (d : CrashDisk κ ι β) (k : κ) : CrashDisk κ ι β := d.setEntry k none

end Updates

/-! ### Possible entries -/

/-- The name has the entry, or may have it after a crash. -/
def Possible (d : CrashDisk κ ι β) (k : κ) (v : Option ι) : Prop := v ∈ d.entries k :: d.older k

theorem possible_entries (d : CrashDisk κ ι β) (k : κ) : d.Possible k (d.entries k) :=
  List.mem_cons_self ..

@[simp] theorem possible_empty {blank : β} {k : κ} {v : Option ι} :
    (empty blank : CrashDisk κ ι β).Possible k v ↔ v = none := by
  simp [Possible, empty]

/-- After a sync only the current entry is left. -/
@[simp] theorem possible_syncDir {d : CrashDisk κ ι β} {k : κ} {v : Option ι} :
    d.syncDir.Possible k v ↔ v = d.entries k := by
  simp [Possible, syncDir]

/-- What stands after a crash was possible before it. -/
theorem Possible.of_crash {d : CrashDisk κ ι β} {pick : κ → ℕ} {torn : ι → β} {k : κ}
    {v : Option ι} (h : (d.crash pick torn).Possible k v) : d.Possible k v := by
  have hv : v = (d.entries k :: d.older k).getD (pick k) (d.entries k) := by
    simpa [Possible, crash] using h
  rw [hv, List.getD_eq_getElem?_getD]
  rcases e : (d.entries k :: d.older k)[pick k]? with - | u
  · exact d.possible_entries k
  · exact List.mem_of_getElem? e

/-- Whatever is possible stands after some crash. -/
theorem Possible.exists_crash {d : CrashDisk κ ι β} {k : κ} {v : Option ι}
    (h : d.Possible k v) (torn : ι → β) : ∃ pick, (d.crash pick torn).entries k = v := by
  obtain ⟨n, hn⟩ := List.mem_iff_getElem?.mp h
  refine ⟨fun _ => n, ?_⟩
  simp only [crash, List.getD_eq_getElem?_getD, hn]
  rfl

/-- Synced contents survive a crash. -/
theorem files_crash {d : CrashDisk κ ι β} {pick : κ → ℕ} {torn : ι → β} {i : ι}
    (h : (d.files i).synced = true) : (d.crash pick torn).files i = d.files i := by
  simp [crash, h]

/-! ### Where two disks agree -/

/-- The name has the same entry on both disks, and the same past. -/
def SameEntry (d d' : CrashDisk κ ι β) (k : κ) : Prop :=
  d'.entries k = d.entries k ∧ d'.older k = d.older k

/-- A crash can leave the same under a name whose entry is the same. -/
theorem SameEntry.possible_iff {d d' : CrashDisk κ ι β} {k : κ} (h : SameEntry d d' k)
    {v : Option ι} : d'.Possible k v ↔ d.Possible k v := by
  rw [Possible, Possible, h.1, h.2]

variable {d : CrashDisk κ ι β} {k k' : κ} {i j : ι}

section Entries

variable [DecidableEq κ]

theorem sameEntry_setEntry (v : Option ι) (h : k' ≠ k) : SameEntry d (d.setEntry k v) k' :=
  ⟨Function.update_of_ne h .., Function.update_of_ne h ..⟩

@[simp] theorem entries_setEntry (v : Option ι) : (d.setEntry k v).entries k = v :=
  Function.update_self ..

/-- A changed entry may go back. -/
theorem possible_setEntry {v w : Option ι} :
    (d.setEntry k v).Possible k w ↔ w = v ∨ d.Possible k w := by
  simp [Possible, setEntry]

theorem sameEntry_rename {source target : κ} (hs : k ≠ source) (ht : k ≠ target) :
    SameEntry d (d.rename source target) k := by
  obtain ⟨h₁, h₂⟩ := sameEntry_setEntry (d := d) (d.entries source) ht
  obtain ⟨h₃, h₄⟩ :=
    sameEntry_setEntry (d := d.setEntry target (d.entries source)) (none : Option ι) hs
  exact ⟨h₃.trans h₁, h₄.trans h₂⟩

theorem entries_rename_target {source target : κ} (h : target ≠ source) :
    (d.rename source target).entries target = d.entries source := by
  rw [rename, (sameEntry_setEntry none h).1, entries_setEntry]

theorem entries_rename_source {source target : κ} :
    (d.rename source target).entries source = none :=
  entries_setEntry none

theorem possible_rename_target {source target : κ} (h : target ≠ source) {v : Option ι} :
    (d.rename source target).Possible target v ↔ v = d.entries source ∨ d.Possible target v := by
  rw [rename, (sameEntry_setEntry none h).possible_iff, possible_setEntry]

end Entries

section Files

variable [DecidableEq ι]

@[simp] theorem files_setFile_self (f : DiskFile β) : (d.setFile i f).files i = f :=
  Function.update_self ..

theorem files_setFile_of_ne (f : DiskFile β) (h : j ≠ i) : (d.setFile i f).files j = d.files j :=
  Function.update_of_ne h ..

end Files

end CrashDisk

end KDown
