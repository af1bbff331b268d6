import Mathlib.Logic.Function.Basic
import Artel.Fs.Keys

namespace Artel.Fs

inductive Item
  | file (bytes : Bytes)
  | dir
  | symlink
  deriving DecidableEq

abbrev Disk := Path → Option Item

namespace Disk

def set (disk : Disk) (path : Path) (item : Option Item) : Disk := Function.update disk path item

def isSymlink (disk : Disk) (path : Path) : Bool := disk path = some .symlink

def isDir (disk : Disk) (path : Path) : Bool := path = [] ∨ disk path = some .dir

def fileSize (disk : Disk) (path : Path) : Option ℕ :=
  match disk path with
  | some (.file bytes) => some bytes.length
  | some .dir | some .symlink | none => none

/-- A directory on the way is a file, which is not the same as nothing at the path. -/
def blocked (disk : Disk) (path : Path) : Bool :=
  path.dropLast.inits.tail.any fun above => (disk.fileSize above).isSome

variable {disk : Disk} {path other : Path} {item : Option Item}

@[simp] theorem set_self : disk.set path item path = item := Function.update_self ..

theorem set_of_ne (h : other ≠ path) : disk.set path item other = disk other :=
  Function.update_of_ne h ..

end Disk

inductive FsOp
  | createDir (path : Path)
  | write (path : Path) (bytes : Bytes)
  | rename (source target : Path)
  | remove (path : Path)
  deriving DecidableEq

/-- The tree after a call that succeeds. A write to a link goes where the link leads. -/
def FsOp.perform (disk : Disk) : FsOp → Option Disk
  | .createDir path =>
    if disk.isDir path.dropLast ∧ disk path = none then some (disk.set path (some .dir)) else none
  | .write path bytes =>
    if disk.isDir path.dropLast then
      match disk path with
      | none | some (.file _) => some (disk.set path (some (.file bytes)))
      | some .symlink => some disk
      | some .dir => none
    else none
  | .rename source target =>
    match disk source, disk target with
    | none, _ | some .dir, _ | _, some .dir => none
    | some item, _ => some ((disk.set source none).set target (some item))
  | .remove path =>
    match disk path with
    | some (.file _) | some .symlink => some (disk.set path none)
    | some .dir | none => none

def FsOp.paths : FsOp → List Path
  | .createDir path | .write path _ | .remove path => [path]
  | .rename source target => [source, target]

theorem FsOp.perform_createDir {dir : Path} {disk disk' : Disk}
    (h : (FsOp.createDir dir).perform disk = some disk') :
    disk dir = none ∧ disk' = disk.set dir (some .dir) := by
  simp only [FsOp.perform] at h
  split at h
  · rename_i hfree
    exact ⟨hfree.2, (Option.some.inj h).symm⟩
  · cases h

theorem FsOp.perform_of_not_mem {op : FsOp} {disk disk' : Disk} {path : Path}
    (h : op.perform disk = some disk') (hpath : path ∉ op.paths) : disk' path = disk path := by
  cases op with
  | createDir target =>
    have hne : path ≠ target := by simpa [FsOp.paths] using hpath
    simp only [FsOp.perform] at h
    split at h
    · cases h
      exact Disk.set_of_ne hne
    · cases h
  | write target bytes =>
    have hne : path ≠ target := by simpa [FsOp.paths] using hpath
    simp only [FsOp.perform] at h
    split at h
    · split at h <;> cases h
      · exact Disk.set_of_ne hne
      · exact Disk.set_of_ne hne
      · rfl
    · cases h
  | rename source target =>
    obtain ⟨hsource, htarget⟩ : path ≠ source ∧ path ≠ target := by simpa [FsOp.paths] using hpath
    simp only [FsOp.perform] at h
    split at h <;> cases h
    rw [Disk.set_of_ne htarget, Disk.set_of_ne hsource]
  | remove target =>
    have hne : path ≠ target := by simpa [FsOp.paths] using hpath
    simp only [FsOp.perform] at h
    split at h <;> cases h
    · exact Disk.set_of_ne hne
    · exact Disk.set_of_ne hne

theorem FsOp.perform_dir {op : FsOp} {disk disk' : Disk} {path : Path}
    (h : op.perform disk = some disk') (hdir : disk path = some .dir) :
    disk' path = some .dir := by
  have hnot : path ∉ op.paths := by
    intro hin
    cases op with
    | createDir target =>
      obtain rfl := List.mem_singleton.mp hin
      simp [(FsOp.perform_createDir h).1] at hdir
    | write target bytes | remove target =>
      obtain rfl := List.mem_singleton.mp hin
      simp [FsOp.perform, hdir] at h
    | rename source target =>
      obtain rfl | rfl : path = source ∨ path = target := by simpa [FsOp.paths] using hin
      · simp [FsOp.perform, hdir] at h
      · simp only [FsOp.perform, hdir] at h
        split at h <;> cases h
        simp_all
  exact (FsOp.perform_of_not_mem h hnot).trans hdir

end Artel.Fs
