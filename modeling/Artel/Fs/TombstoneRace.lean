import Artel.Lib.Run
import Artel.Fs.EchoGuard

namespace Artel.Fs

/-- A file at the path; `late` if a local write put its content there after the mark. -/
structure LocalFile where
  dev : ℕ
  ino : ℕ
  /-- In whole seconds. -/
  mtime : ℤ
  bytes : Bytes
  late : Bool
  deriving DecidableEq

abbrev PathFingerprint := ℕ × ℕ × ℤ × ℕ

def LocalFile.fingerprint (file : LocalFile) : PathFingerprint :=
  (file.dev, file.ino, file.mtime, file.bytes.length)

/-- Where `apply_tombstone` is; it removes what still has the fingerprint from `before`. -/
inductive TombstoneTurn
  | start
  | marked
  | removing (before : Option PathFingerprint)
  | done
  deriving DecidableEq

/-- One path, with the second it is and what `apply_tombstone` has removed. -/
structure TombstoneRace where
  file : Option LocalFile
  now : ℤ
  turn : TombstoneTurn
  removed : Option LocalFile

inductive RaceEvent
  | tick
  | create (dev ino : ℕ) (bytes : Bytes)
  | rewrite (bytes : Bytes)
  | renameOver (file : LocalFile)
  /-- `apply_tombstone` takes its next step. -/
  | proceed

namespace TombstoneRace

def start (file : Option LocalFile) (now : ℤ) : TombstoneRace :=
  ⟨file.map ({ · with late := false }), now, .start, none⟩

/-- What a local write leaves. A file that is renamed over has its own inode. -/
def written (s : TombstoneRace) : RaceEvent → Option LocalFile
  | .create dev ino bytes => if s.file = none then some ⟨dev, ino, s.now, bytes, true⟩ else none
  | .rewrite bytes => s.file.map ({ · with mtime := s.now, bytes := bytes })
  | .renameOver file =>
    if s.file.all fun old => (old.dev, old.ino) ≠ (file.dev, file.ino) then some file else none
  | _ => none

/-- `apply_tombstone` with its mark; the compare and the unlink are one. -/
def proceed (mark : RemoteDeleteMark) (s : TombstoneRace) : TombstoneRace :=
  match s.turn with
  | .start => { s with turn := if mark = .fresh then .marked else .done }
  | .marked => { s with turn := .removing (s.file.map LocalFile.fingerprint) }
  | .removing before =>
    if s.file.map LocalFile.fingerprint = before then ⟨none, s.now, .done, s.file⟩
    else { s with turn := .done }
  | .done => s

def step (mark : RemoteDeleteMark) (s : TombstoneRace) (event : RaceEvent) : TombstoneRace :=
  match s.written event, event with
  | some file, _ => { s with file := some { file with late := s.turn ≠ .start } }
  | none, .tick => { s with now := s.now + 1 }
  | none, .proceed => s.proceed mark
  | none, _ => s

/-- A write comes before the mark or after the fingerprint, from which it then differs. -/
def Apparent (s : TombstoneRace) (event : RaceEvent) : Prop :=
  ∀ file ∈ s.written event,
    s.turn ≠ .marked ∧ ∀ before, s.turn = .removing before → before ≠ some file.fingerprint

structure Spares (s : TombstoneRace) : Prop where
  removed : ∀ file ∈ s.removed, file.late = false
  early : s.turn = .start ∨ s.turn = .marked → ∀ file ∈ s.file, file.late = false
  removing : ∀ before, s.turn = .removing before → ∀ file ∈ s.file, file.late = true →
    before ≠ some file.fingerprint

theorem Spares.proceed {s : TombstoneRace} (h : Spares s) (mark : RemoteDeleteMark) :
    Spares (s.proceed mark) := by
  unfold TombstoneRace.proceed
  split
  · rename_i hturn
    refine ⟨h.removed, fun _ => h.early (.inl hturn), fun before heq => ?_⟩
    split at heq <;> cases heq
  · rename_i hturn
    refine ⟨h.removed, nofun, fun before _ file hfile hlate => ?_⟩
    have hearly := h.early (.inr hturn) file hfile
    exact absurd (hearly.symm.trans hlate) nofun
  · rename_i before hturn
    split
    · rename_i hsame
      refine ⟨fun file hfile => ?_, nofun, nofun⟩
      by_contra hlate
      refine h.removing before hturn file hfile (by simpa using hlate) ?_
      rw [← hsame]
      exact Option.map_eq_some_iff.mpr ⟨file, hfile, rfl⟩
    · exact ⟨h.removed, nofun, nofun⟩
  · exact h

theorem Spares.step {s : TombstoneRace} (h : Spares s) {mark : RemoteDeleteMark} {event : RaceEvent}
    (happarent : s.Apparent event) : Spares (s.step mark event) := by
  unfold TombstoneRace.step
  split
  · rename_i file hwritten
    obtain ⟨hmarked, hremoving⟩ := happarent file hwritten
    refine ⟨h.removed, fun hturn other hother => ?_, fun before hturn other hother _ => ?_⟩
    · cases hother
      simpa using hturn.resolve_right hmarked
    · cases hother
      exact hremoving before hturn
  · exact ⟨h.removed, h.early, h.removing⟩
  · exact h.proceed mark
  · exact h

/-- Where every write shows, nothing that was written after the mark is removed. -/
theorem late_writes_spared (mark : RemoteDeleteMark) (file : Option LocalFile) (now : ℤ)
    (events : List RaceEvent) (h : Along (step mark) Apparent (start file now) events) :
    ∀ gone ∈ (events.foldl (step mark) (start file now)).removed, gone.late = false := by
  have hstart : Spares (start file now) := by
    refine ⟨nofun, fun _ other hother => ?_, nofun⟩
    obtain ⟨_, -, rfl⟩ := Option.map_eq_some_iff.mp hother
    rfl
  exact (h.invariant (fun s event hs happarent => hs.step happarent) hstart).removed

namespace Sample

def noted : LocalFile := ⟨1, 7, 100, [1, 2], false⟩

def longer : List RaceEvent := [.proceed, .proceed, .rewrite [3, 4, 5], .proceed]

theorem late_writes_spared_longer :
    (longer.foldl (step .fresh) (start noted 100)).file = some ⟨1, 7, 100, [3, 4, 5], true⟩ ∧
      ∀ gone ∈ (longer.foldl (step .fresh) (start noted 100)).removed, gone.late = false := by
  refine ⟨by decide, late_writes_spared .fresh noted 100 longer ?_⟩
  simp [longer, Along, Apparent, written, TombstoneRace.step, TombstoneRace.proceed, start, noted,
    LocalFile.fingerprint]

/-- A write before the fingerprint, and one of the same second and length after. -/
theorem late_write_removed :
    ([.proceed, .rewrite [3, 4, 5], .proceed, .proceed].foldl (step .fresh) (start noted 101)).removed =
        some ⟨1, 7, 101, [3, 4, 5], true⟩ ∧
      ([.proceed, .proceed, .rewrite [3, 4], .proceed].foldl (step .fresh) (start noted 100)).removed =
        some ⟨1, 7, 100, [3, 4], true⟩ := by
  decide

end Sample

end TombstoneRace

end Artel.Fs
