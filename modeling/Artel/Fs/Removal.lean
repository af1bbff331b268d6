import Artel.Fs.Applier

namespace Artel.Fs

/-- Something is where the key says; a file is not found under the name of a directory. -/
def KeyPath.tryExists (path : KeyPath) (disk : Disk) : Bool :=
  if path.asDir then disk.isDir path.parts else (disk path.parts).isSome

section

variable {η : Type} (settings : Settings η)

/-- The key that the removal of a path is published under, if it is published. -/
def removalKey (halted : Bool) (disk : Disk) (path : Path) : Option Bytes :=
  if halted then none
  else
    match settings.filter.check disk.isSymlink path.rel (disk.fileSize path) with
    | .skip _ => none
    | .included =>
      if settings.rules.modeFor settings.filter.unicode path.rel = .readOnly then none
      else (pathToKey settings.filter.unicode path.rel).toOption

def onRemoved (author : FixedBytes 32) (halted : Bool) (disk : Disk) (path : Path)
    (guard : EchoGuard η) (doc : Replica (FixedBytes 32) η) :
    EchoGuard η × Replica (FixedBytes 32) η :=
  if guard.shouldSkipRemoval path then (guard, doc)
  else
    match removalKey settings halted disk path with
    | none => (guard.forget path, doc)
    | some key => (guard.forget path, doc.del author key)

/-- A live entry of a path that syncs and is not there; the rules are not asked. -/
def isMissing (disk : Disk) (entry : Entry η) : Bool :=
  entry.content.isSome &&
    (keyToPath settings.filter.unicode entry.key).toOption.any fun path =>
      path.check settings disk = .included && !path.tryExists disk

def reconcileEntry (author : FixedBytes 32) (disk : Disk) (doc : Replica (FixedBytes 32) η)
    (entry : Entry η) : Replica (FixedBytes 32) η :=
  if isMissing settings disk entry then doc.del author entry.key else doc

def reconcileDocAgainstDisk (author : FixedBytes 32) (disk : Disk)
    (doc : Replica (FixedBytes 32) η) : Replica (FixedBytes 32) η :=
  doc.latestPerKey.foldl (reconcileEntry settings author disk) doc

def Changed (doc doc' : Replica (FixedBytes 32) η) (key : Bytes) : Prop :=
  doc'.latest key ≠ doc.latest key

variable {settings}

theorem onRemoved_of_removalKey {author : FixedBytes 32} {halted : Bool} {disk : Disk} {path : Path}
    {guard : EchoGuard η} {doc : Replica (FixedBytes 32) η} {key : Bytes}
    (hguard : guard.shouldSkipRemoval path = false)
    (hkey : removalKey settings halted disk path = some key) :
    (onRemoved settings author halted disk path guard doc).2 = doc.del author key := by
  simp [onRemoved, hguard, hkey]

theorem reconcileEntry_of_isMissing {author : FixedBytes 32} {disk : Disk}
    {doc : Replica (FixedBytes 32) η} {entry : Entry η} (h : isMissing settings disk entry = true) :
    reconcileEntry settings author disk doc entry = doc.del author entry.key :=
  if_pos h

end

/-- A tombstone changes its key alone, but for a longer key the node wrote last. -/
theorem tombstone_changes_its_key_iff {η : Type} (settings : Settings η) (author : FixedBytes 32)
    (disk : Disk) (doc : Replica (FixedBytes 32) η) :
    (∀ halted path guard key, guard.shouldSkipRemoval path = false →
      removalKey settings halted disk path = some key →
      (∀ e, doc.latest key = some e → e.timestamp < doc.clock) →
      ((∀ other, Changed doc (onRemoved settings author halted disk path guard doc).2 other ↔
        other = key) ↔ ¬doc.Covers author key)) ∧
    ∀ entry, isMissing settings disk entry = true →
      (∀ e, doc.latest entry.key = some e → e.timestamp < doc.clock) →
      ((∀ other, Changed doc (reconcileEntry settings author disk doc entry) other ↔
        other = entry.key) ↔ ¬doc.Covers author entry.key) := by
  constructor
  · intro halted path guard key hguard hkey hclock
    rw [onRemoved_of_removalKey hguard hkey]
    exact Replica.del_changes_iff hclock
  · intro entry hmissing hclock
    rw [reconcileEntry_of_isMissing hmissing]
    exact Replica.del_changes_iff hclock

namespace Sample

open Workspace.Sample

def twoFiles : Replica (FixedBytes 32) Bytes := ⟨[fileEntry 0 [97] 1 0, fileEntry 0 [98] 2 1], 2⟩

theorem tombstone_changes_its_key_iff_twoFiles :
    ∀ other, Changed twoFiles (onRemoved (settings .readWrite) (endpoint 0).bytes false
      (fun _ => none) [[97]] .new twoFiles).2 other ↔ other = KEY_PREFIX ++ [97] := by
  have hcovers : ¬twoFiles.Covers (endpoint 0).bytes (KEY_PREFIX ++ [97]) := by
    rintro ⟨e, he, -, hbegins, hne⟩
    have hin := (Replica.mem_of_latest he).1
    obtain rfl | rfl : e = fileEntry 0 [97] 1 0 ∨ e = fileEntry 0 [98] 2 1 := by
      simpa [twoFiles] using hin
    · exact hne rfl
    · revert hbegins
      decide
  have hclock : ∀ e, twoFiles.latest (KEY_PREFIX ++ [97]) = some e → e.timestamp < 2 := by
    intro e he
    have hin := (Replica.mem_of_latest he).1
    obtain rfl | rfl : e = fileEntry 0 [97] 1 0 ∨ e = fileEntry 0 [98] 2 1 := by
      simpa [twoFiles] using hin
    · decide
    · decide
  exact ((tombstone_changes_its_key_iff (settings .readWrite) (endpoint 0).bytes (fun _ => none)
    twoFiles).1 false [[97]] .new (KEY_PREFIX ++ [97]) rfl (by decide +kernel) hclock).mpr hcovers

def nested : Replica (FixedBytes 32) Bytes := ⟨[fileEntry 0 [97] 1 0, fileEntry 0 [97, 98] 2 1], 2⟩

/-- `ab` is on the disk and goes from the document with `a`. -/
theorem tombstone_removes_longer_key :
    let disk : Disk := fun path => if path = [[97, 98]] then some (.file [2]) else none
    nested.latest (KEY_PREFIX ++ [97, 98]) = some (fileEntry 0 [97, 98] 2 1) ∧
    (onRemoved (settings .readWrite) (endpoint 0).bytes false disk [[97]] .new nested).2.latest
      (KEY_PREFIX ++ [97, 98]) = none ∧
    (reconcileDocAgainstDisk (settings .readWrite) (endpoint 0).bytes disk nested).latest
      (KEY_PREFIX ++ [97, 98]) = none := by
  decide +kernel

end Sample

end Artel.Fs
