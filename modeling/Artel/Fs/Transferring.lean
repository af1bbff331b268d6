import Mathlib.Data.List.Sort
import Artel.Lib.Run
import Artel.Fs.Disk

namespace Artel.Fs

structure Transferring where
  path : Path
  received : ℕ
  total : ℕ
  deriving DecidableEq

/-- Where a `track` for the hash is. -/
inductive TrackTurn
  | idle
  | joined (path : Path) (total : ℕ)
  | loaded (event : Transferring)

/-- The tracker of one hash, with its task, the applier's call and the events in the channel. -/
structure Tracker where
  paths : List (Path × ℕ)
  latest : ℕ
  /-- What the task is to send: the bytes, and once it has the lock the paths that are left. -/
  task : Option (ℕ × Option (List (Path × ℕ)))
  call : TrackTurn
  channel : List Transferring

inductive TrackerEvent
  /-- A bitfield arrives, and the throttle, which reads the clock, lets it pass or not. -/
  | observe (raw : ℕ) (emits : Bool)
  /-- The task locks its paths, sends the next event or unlocks. -/
  | advance (room : Bool)
  | track (path : Path) (total : ℕ)
  /-- The call reads `latest` or sends its event. -/
  | proceed (room : Bool)

namespace Tracker

def spawn (path : Path) (total : ℕ) : Tracker := ⟨[(path, total)], 0, none, .idle, []⟩

/-- `emit_event`: a full channel drops the event. -/
def emit (s : Tracker) (room : Bool) (event : Transferring) : Tracker :=
  if room then { s with channel := s.channel ++ [event] } else s

def step (s : Tracker) : TrackerEvent → Tracker
  | .observe raw emits =>
    if s.task.isSome then s
    else
      let received := max s.latest raw
      { s with latest := received, task := if emits then some (received, none) else none }
  | .advance room =>
    match s.task with
    | none => s
    | some (received, none) => { s with task := some (received, some s.paths) }
    | some (received, some ((path, total) :: left)) =>
      { s with task := some (received, some left) }.emit room ⟨path, min received total, total⟩
    | some (_, some []) => { s with task := none }
  | .track path total =>
    match s.call, s.task with
    | .idle, none | .idle, some (_, none) =>
      { s with
        paths := (s.paths.filter (·.1 ≠ path)).orderedInsert (·.1 ≤ ·.1) (path, total)
        call := if path ∈ s.paths.map Prod.fst then .idle else .joined path total }
    | _, _ => s
  | .proceed room =>
    match s.call with
    | .idle => s
    | .joined path total => { s with call := .loaded ⟨path, min s.latest total, total⟩ }
    | .loaded event => { s with call := .idle }.emit room event

/-- `latest` is not raised while a `track` has read it and not sent its event. -/
def apart (s : Tracker) : TrackerEvent → Bool
  | .observe raw _ =>
    match s.call with
    | .loaded _ => raw ≤ s.latest
    | _ => true
  | _ => true

/-- What is about to be sent is of the present `latest`, and what was sent is of an earlier one. -/
structure Rising (s : Tracker) : Prop where
  task : ∀ turn ∈ s.task, turn.1 = s.latest
  call : ∀ e, s.call = .loaded e → e.received = min s.latest e.total
  bound : ∀ e ∈ s.channel, e.received ≤ min s.latest e.total
  channel : s.channel.Pairwise fun e e' =>
    e.path = e'.path → e.total = e'.total → e.received ≤ e'.received

variable {s : Tracker} {e : Transferring}

theorem Rising.emit (h : Rising s) (room : Bool) (he : e.received = min s.latest e.total) :
    Rising (s.emit room e) := by
  cases room with
  | false => exact h
  | true =>
    refine ⟨h.task, h.call, fun e' he' => ?_, ?_⟩
    · obtain hold | hnew := List.mem_append.mp he'
      · exact h.bound e' hold
      · rw [List.mem_singleton.mp hnew]
        exact he.le
    · refine List.pairwise_append.mpr ⟨h.channel, List.pairwise_singleton _ _, ?_⟩
      intro e' he' x hx _ htotal
      rw [List.mem_singleton.mp hx] at htotal ⊢
      rw [he, ← htotal]
      exact h.bound e' he'

theorem Rising.step (h : Rising s) {event : TrackerEvent} (hapart : s.apart event) :
    Rising (s.step event) := by
  cases event with
  | observe raw emits =>
    simp only [Tracker.step]
    split
    · exact h
    refine ⟨fun turn hturn => ?_, fun e he => ?_, fun e he => ?_, h.channel⟩
    · cases emits <;> cases hturn
      rfl
    · have hcall : s.call = .loaded e := he
      have hraw : raw ≤ s.latest := by simpa [apart, hcall] using hapart
      show e.received = min (max s.latest raw) e.total
      rw [max_eq_left hraw]
      exact h.call e he
    · have hbound := h.bound e he
      show e.received ≤ min (max s.latest raw) e.total
      omega
  | advance room =>
    simp only [Tracker.step]
    split
    · exact h
    · rename_i received htask
      have hlatest : received = s.latest := h.task _ htask
      exact ⟨by rintro _ ⟨⟩; exact hlatest, h.call, h.bound, h.channel⟩
    · rename_i received path total left htask
      have hlatest : received = s.latest := h.task _ htask
      have hnext : Rising { s with task := some (received, some left) } :=
        ⟨by rintro _ ⟨⟩; exact hlatest, h.call, h.bound, h.channel⟩
      exact hnext.emit room (by rw [hlatest])
    · exact ⟨nofun, h.call, h.bound, h.channel⟩
  | track path total =>
    simp only [Tracker.step]
    split
    case h_3 => exact h
    all_goals
      refine ⟨h.task, fun e he => ?_, h.bound, h.channel⟩
      dsimp only at he
      split at he <;> cases he
  | proceed room =>
    simp only [Tracker.step]
    split
    · exact h
    · exact ⟨h.task, by rintro _ ⟨⟩; rfl, h.bound, h.channel⟩
    · rename_i event hcall
      have hnext : Rising { s with call := .idle } :=
        ⟨h.task, by rintro _ ⟨⟩, h.bound, h.channel⟩
      exact hnext.emit room (h.call event hcall)

/-- If `latest` stays while a `track` is to send it, the events of a path rise, up to the total. -/
theorem received_rises (path : Path) (total : ℕ) (events : List TrackerEvent)
    (h : Along step (fun s event => s.apart event) (spawn path total) events) :
    let s := events.foldl step (spawn path total)
    (s.channel.Pairwise fun e e' =>
      e.path = e'.path → e.total = e'.total → e.received ≤ e'.received) ∧
    ∀ e ∈ s.channel, e.received ≤ e.total := by
  have hspawn : Rising (spawn path total) := ⟨nofun, nofun, nofun, .nil⟩
  have hrising := h.invariant (fun s event hs hapart => hs.step hapart) hspawn
  exact ⟨hrising.channel, fun e he => (hrising.bound e he).trans (Nat.min_le_right ..)⟩

namespace Sample

def joins (more : List TrackerEvent) : List TrackerEvent :=
  [.observe 10 true, .advance true, .advance true, .advance true, .track [[98]] 40,
    .proceed true] ++ more

theorem received_rises_joined :
    let s := (joins [.proceed true, .observe 20 true, .advance true, .advance true]).foldl step
      (spawn [[97]] 40)
    s.channel.length = 3 ∧ ∀ e ∈ s.channel, e.received ≤ e.total :=
  ⟨by decide, (received_rises [[97]] 40 _ (by decide)).2⟩

/-- `latest` is read, the task sends a greater value for the path, and the call its own. -/
theorem received_falls :
    ((joins [.observe 20 true, .advance true, .advance true, .advance true, .proceed true]).foldl
      step (spawn [[97]] 40)).channel.drop 2 = [⟨[[98]], 20, 40⟩, ⟨[[98]], 10, 40⟩] := by
  decide

end Sample

end Tracker

end Artel.Fs
