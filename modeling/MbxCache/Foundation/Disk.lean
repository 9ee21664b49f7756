/-
# Names and files

The names of a file system are kept apart from the files they stand for. A name can
be made, moved and removed while a file is open, and a file is written through
whoever has it open, so what a name stands for and what a file holds change
independently.
-/

import Mathlib.Logic.Function.Basic
import MbxCache.Foundation.Encoding

namespace MbxCache.Foundation

/-- What a name stands for. -/
inductive Entry where
  | directory
  | file (inode : ℕ)
  deriving DecidableEq, Repr

structure Disk (Name : Type) where
  entries : Name → Option Entry
  contents : ℕ → Bytes
  allocated : ℕ

namespace Disk

variable {Name : Type} [DecidableEq Name]

def makeDirectory (disk : Disk Name) (name : Name) : Disk Name :=
  { disk with entries := Function.update disk.entries name (some .directory) }

/-- A new file without contents. -/
def createFile (disk : Disk Name) (name : Name) : Disk Name where
  entries := Function.update disk.entries name (some (.file disk.allocated))
  contents := Function.update disk.contents disk.allocated []
  allocated := disk.allocated + 1

def write (disk : Disk Name) (inode : ℕ) (content : Bytes) : Disk Name :=
  { disk with contents := Function.update disk.contents inode content }

def unlink (disk : Disk Name) (name : Name) : Disk Name :=
  { disk with entries := Function.update disk.entries name none }

/-- The second name stands for what the first one did, and the first for nothing. -/
def rename (disk : Disk Name) (source target : Name) : Disk Name :=
  { disk with
    entries := Function.update (Function.update disk.entries target (disk.entries source)) source
      none }

/-- Every file with a name has been allocated. -/
def Allocated (disk : Disk Name) : Prop :=
  ∀ name inode, disk.entries name = some (.file inode) → inode < disk.allocated

/-- Only entries of these names and contents of these files differ. -/
structure Frame (names : Set Name) (files : Set ℕ) (before after : Disk Name) : Prop where
  entries : ∀ name, name ∉ names → after.entries name = before.entries name
  contents : ∀ inode, inode ∉ files → after.contents inode = before.contents inode
  grows : before.allocated ≤ after.allocated

section

variable (disk : Disk Name)

theorem makeDirectory_entries (name other : Name) :
    (disk.makeDirectory name).entries other =
      if other = name then some .directory else disk.entries other :=
  Function.update_apply _ _ _ _

theorem createFile_entries (name other : Name) :
    (disk.createFile name).entries other =
      if other = name then some (.file disk.allocated) else disk.entries other :=
  Function.update_apply _ _ _ _

theorem createFile_contents (name : Name) (inode : ℕ) :
    (disk.createFile name).contents inode =
      if inode = disk.allocated then [] else disk.contents inode :=
  Function.update_apply _ _ _ _

theorem write_contents (inode other : ℕ) (content : Bytes) :
    (disk.write inode content).contents other =
      if other = inode then content else disk.contents other :=
  Function.update_apply _ _ _ _

theorem unlink_entries (name other : Name) :
    (disk.unlink name).entries other = if other = name then none else disk.entries other :=
  Function.update_apply _ _ _ _

theorem rename_entries (source target other : Name) :
    (disk.rename source target).entries other =
      if other = source then none
      else if other = target then disk.entries source else disk.entries other := by
  show Function.update (Function.update _ _ _) _ _ _ = _
  rw [Function.update_apply, Function.update_apply]

variable {disk} {names : Set Name} {files : Set ℕ}

theorem frame_refl : Frame names files disk disk where
  entries _ _ := rfl
  contents _ _ := rfl
  grows := le_rfl

theorem frame_makeDirectory {name : Name} (h : name ∈ names) :
    Frame names files disk (disk.makeDirectory name) where
  entries other hother := by
    rw [makeDirectory_entries, if_neg]
    rintro rfl
    exact hother h
  contents _ _ := rfl
  grows := le_rfl

theorem frame_createFile {name : Name} (h : name ∈ names) (hfile : disk.allocated ∈ files) :
    Frame names files disk (disk.createFile name) where
  entries other hother := by
    rw [createFile_entries, if_neg]
    rintro rfl
    exact hother h
  contents inode hinode := by
    rw [createFile_contents, if_neg]
    rintro rfl
    exact hinode hfile
  grows := Nat.le_succ disk.allocated

theorem frame_write {inode : ℕ} {content : Bytes} (h : inode ∈ files) :
    Frame names files disk (disk.write inode content) where
  entries _ _ := rfl
  contents other hother := by
    rw [write_contents, if_neg]
    rintro rfl
    exact hother h
  grows := le_rfl

theorem frame_unlink {name : Name} (h : name ∈ names) :
    Frame names files disk (disk.unlink name) where
  entries other hother := by
    rw [unlink_entries, if_neg]
    rintro rfl
    exact hother h
  contents _ _ := rfl
  grows := le_rfl

theorem frame_rename {source target : Name} (hsource : source ∈ names) (htarget : target ∈ names) :
    Frame names files disk (disk.rename source target) where
  entries other hother := by
    rw [rename_entries, if_neg, if_neg]
    · rintro rfl
      exact hother htarget
    · rintro rfl
      exact hother hsource
  contents _ _ := rfl
  grows := le_rfl

end

end Disk

end MbxCache.Foundation
