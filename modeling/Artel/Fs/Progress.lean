import Mathlib.Data.List.Sort
import Artel.Fs.Disk

namespace Artel.Fs

def MAX_CONCURRENT_TRACKERS : ℕ := 256

/-- The downloads that are followed, and the paths that wait for each. -/
structure TransferTrackers (η : Type) where
  hashes : List η
  paths : η → List Path

namespace TransferTrackers

variable {η : Type}

def new : TransferTrackers η := ⟨[], fun _ => []⟩

section

variable [DecidableEq η] (trackers : TransferTrackers η)

/-- A tracker without a path is dropped. -/
def supersede (path : Path) (keep : Option η) : TransferTrackers η where
  hashes := trackers.hashes.filter fun hash =>
    some hash = keep ∨ (trackers.paths hash).filter (· ≠ path) ≠ []
  paths hash :=
    if some hash = keep then trackers.paths hash else (trackers.paths hash).filter (· ≠ path)

def extend (hash : η) (path : Path) : TransferTrackers η :=
  let others := (trackers.paths hash).filter (· ≠ path)
  { trackers with
    paths := Function.update trackers.paths hash (others.orderedInsert (· ≤ ·) path) }

def track (hash : η) (path : Path) : TransferTrackers η :=
  let trackers := trackers.supersede path (some hash)
  if hash ∈ trackers.hashes then trackers.extend hash path
  else if MAX_CONCURRENT_TRACKERS ≤ trackers.hashes.length then trackers
  else ⟨trackers.hashes ++ [hash], Function.update trackers.paths hash [path]⟩

def trackedPaths (hash : η) : List Path :=
  if hash ∈ trackers.hashes then trackers.paths hash else []

def finish (hash : η) : TransferTrackers η :=
  { trackers with hashes := trackers.hashes.filter (· ≠ hash) }

variable {trackers} {hash other : η} {path waiting : Path} {keep : Option η}

theorem mem_trackedPaths : waiting ∈ trackers.trackedPaths hash ↔
    hash ∈ trackers.hashes ∧ waiting ∈ trackers.paths hash := by
  unfold trackedPaths
  split
  · rename_i h
    simp [h]
  · rename_i h
    simp [h]

theorem mem_supersede : waiting ∈ (trackers.supersede path keep).trackedPaths hash ↔
    waiting ∈ trackers.trackedPaths hash ∧ (some hash = keep ∨ waiting ≠ path) := by
  rw [mem_trackedPaths, mem_trackedPaths]
  by_cases hkeep : some hash = keep
  · simp [supersede, hkeep]
  simp only [supersede, hkeep, if_false, false_or, List.mem_filter, decide_eq_true_eq]
  constructor
  · rintro ⟨⟨hin, -⟩, hwaiting, hne⟩
    exact ⟨⟨hin, hwaiting⟩, hne⟩
  · rintro ⟨⟨hin, hwaiting⟩, hne⟩
    have hleft : waiting ∈ (trackers.paths hash).filter (· ≠ path) :=
      List.mem_filter.mpr ⟨hwaiting, decide_eq_true hne⟩
    exact ⟨⟨hin, List.ne_nil_of_mem hleft⟩, hwaiting, hne⟩

theorem mem_finish : waiting ∈ (trackers.finish hash).trackedPaths other ↔
    waiting ∈ trackers.trackedPaths other ∧ other ≠ hash := by
  simp only [mem_trackedPaths, finish, List.mem_filter, decide_eq_true_eq]
  exact and_right_comm

theorem mem_extend : waiting ∈ (trackers.extend hash path).trackedPaths other ↔
    waiting ∈ trackers.trackedPaths other ∨
      (other = hash ∧ hash ∈ trackers.hashes ∧ waiting = path) := by
  rw [mem_trackedPaths, mem_trackedPaths]
  by_cases h : other = hash
  · subst h
    by_cases hwaiting : waiting = path
    · simp [extend, hwaiting]
      tauto
    · simp [extend, hwaiting]
  · simp [extend, h]

theorem mem_track_of_mem (hne : waiting ≠ path) (h : waiting ∈ trackers.trackedPaths other) :
    waiting ∈ (trackers.track hash path).trackedPaths other := by
  have hkept : waiting ∈ (trackers.supersede path (some hash)).trackedPaths other :=
    mem_supersede.mpr ⟨h, .inr hne⟩
  unfold track
  dsimp only
  split
  · exact mem_extend.mpr (.inl hkept)
  rename_i hnew
  split
  · exact hkept
  have hother : other ≠ hash := by
    rintro rfl
    exact hnew (mem_trackedPaths.mp hkept).1
  rw [mem_trackedPaths] at hkept ⊢
  refine ⟨List.mem_append_left _ hkept.1, ?_⟩
  simpa [hother] using hkept.2

theorem mem_track_self
    (h : hash ∈ trackers.hashes ∨ trackers.hashes.length < MAX_CONCURRENT_TRACKERS) :
    path ∈ (trackers.track hash path).trackedPaths hash := by
  unfold track
  dsimp only
  split
  · rename_i hin
    exact mem_extend.mpr (.inr ⟨rfl, hin, rfl⟩)
  rename_i hnew
  split
  · rename_i hfull
    obtain hin | hroom := h
    · exact absurd (by simp [supersede, hin]) hnew
    · have hle := List.length_filter_le
        (fun h => decide (some h = some hash ∨ (trackers.paths h).filter (· ≠ path) ≠ []))
        trackers.hashes
      exact absurd hfull (Nat.not_le.mpr (hle.trans_lt hroom))
  · simp [mem_trackedPaths]

theorem mem_track (h : waiting ∈ (trackers.track hash path).trackedPaths other) :
    waiting ∈ trackers.trackedPaths other ∨ (other = hash ∧ waiting = path) := by
  unfold track at h
  dsimp only at h
  split at h
  · obtain h | ⟨heq, -, hpath⟩ := mem_extend.mp h
    · exact .inl (mem_supersede.mp h).1
    · exact .inr ⟨heq, hpath⟩
  split at h
  · exact .inl (mem_supersede.mp h).1
  by_cases heq : other = hash
  · subst heq
    rw [mem_trackedPaths] at h
    exact .inr ⟨rfl, by simpa using h.2⟩
  · have hold : waiting ∈ (trackers.supersede path (some hash)).trackedPaths other := by
      rw [mem_trackedPaths] at h ⊢
      simpa [heq] using h
    exact .inl (mem_supersede.mp hold).1

end

end TransferTrackers

end Artel.Fs
