import Mathlib.Data.Int.Notation
import Mathlib.Logic.Function.Basic
import Mathlib.Data.Option.Basic
import Artel.Lib.Run

namespace Artel.PidFile

abbrev Inode := ℕ

/-- The text of a PID file, as far as `trim().parse::<i32>()` tells texts apart. -/
inductive Contents
  | empty
  | pid (n : ℤ)
  | garbage
  deriving DecidableEq

def Contents.parse : Contents → Option ℤ
  | .pid n => some n
  | .empty | .garbage => none

inductive PidError
  | alreadyRunning (pid : ℤ)
  | io
  deriving DecidableEq

/-- How far an `acquire` and its guard have got: the next system call. -/
inductive Phase
  /-- `open` -/
  | start
  /-- `try_lock` -/
  | opened (i : Inode)
  /-- The lock was taken; the contents are read for the report. -/
  | refused (i : Inode)
  /-- The lock is ours; the contents are read. -/
  | locked (i : Inode)
  /-- `kill(existing, 0)` -/
  | examined (i : Inode) (existing : Option ℤ)
  /-- `seek` and `set_len(0)` -/
  | claimed (i : Inode)
  /-- `write_all` -/
  | truncated (i : Inode)
  /-- `sync_all` -/
  | written (i : Inode)
  /-- The guard has been returned. -/
  | holding (i : Inode)
  /-- `do_release`: the path is read. -/
  | releasing (i : Inode)
  /-- The path named us; `remove_file`. -/
  | matched (i : Inode)
  /-- The lock is given up with the file handle. -/
  | released (i : Inode)
  | failed (err : PidError)
  | over
  | dead
  deriving DecidableEq

/-- Which process makes the `k`-th acquire, and the pid of a process. -/
structure Setup (n : ℕ) where
  process : Fin n → ℕ
  pid : ℕ → ℤ

structure State (n : ℕ) where
  phase : Fin n → Phase
  path : Option Inode
  contents : Inode → Contents
  /-- The `flock` of a file belongs to whoever opened it, and goes with the handle. -/
  locks : Inode → Option (Fin n)
  nextInode : Inode

/-- Whether a call fails, what `kill` answers, and what a broken write leaves. -/
structure Answer where
  fault : Bool := false
  alive : Bool := false
  short : Option Contents := none
  deriving DecidableEq

/-- The next call of an acquire or guard, a `release`, a drop, or a death. -/
inductive Event (n : ℕ)
  | run (k : Fin n) (answer : Answer)
  | release (k : Fin n)
  | die (process : ℕ)
  deriving DecidableEq

section Step

variable {n : ℕ} (setup : Setup n)

namespace State

variable (s : State n) (k : Fin n)

def setPhase (phase : Phase) : State n := { s with phase := Function.update s.phase k phase }

def setContents (i : Inode) (contents : Contents) : State n :=
  { s with contents := Function.update s.contents i contents }

def close (i : Inode) : State n :=
  { s with locks := Function.update s.locks i ((s.locks i).filter (· ≠ k)) }

/-- An error behind the lock closes the file. -/
def fail (i : Inode) (err : PidError) : State n := (s.close k i).setPhase k (.failed err)

/-- `O_CREAT` without `O_TRUNC`. -/
def openPath : State n :=
  match s.path with
  | some i => s.setPhase k (.opened i)
  | none =>
    let made := { s with path := some s.nextInode, nextInode := s.nextInode + 1 }
    (made.setContents s.nextInode .empty).setPhase k (.opened s.nextInode)

def tryLock (i : Inode) : State n :=
  match s.locks i with
  | some _ => s.setPhase k (.refused i)
  | none => { s with locks := Function.update s.locks i (some k) }.setPhase k (.locked i)

/-- Contents of a daemon from before the lock are honoured as long as it is alive. -/
def examine (i : Inode) (existing : Option ℤ) (alive : Bool) : State n :=
  match existing with
  | none => s.setPhase k (.claimed i)
  | some pid =>
    if pid ≠ setup.pid (setup.process k) ∧ 0 < pid ∧ alive then s.fail k i (.alreadyRunning pid)
    else s.setPhase k (.claimed i)

/-- The file is removed only if it still names us. -/
def readPath (i : Inode) : State n :=
  match s.path with
  | none => s.setPhase k (.released i)
  | some j =>
    if (s.contents j).parse = some (setup.pid (setup.process k)) then s.setPhase k (.matched i)
    else s.setPhase k (.released i)

/-- `write_all` goes on after a short write. -/
def writeAll (i : Inode) : Option Contents → State n
  | some part => s.setContents i part
  | none => (s.setContents i (.pid (setup.pid (setup.process k)))).setPhase k (.written i)

def run (answer : Answer) : State n :=
  match s.phase k with
  | .start => if answer.fault then s.setPhase k (.failed .io) else s.openPath k
  | .opened i => if answer.fault then s.fail k i .io else s.tryLock k i
  | .refused i =>
    let pid := if answer.fault then 0 else (s.contents i).parse.getD 0
    s.fail k i (.alreadyRunning pid)
  | .locked i =>
    if answer.fault then s.fail k i .io else s.setPhase k (.examined i (s.contents i).parse)
  | .examined i existing => s.examine setup k i existing answer.alive
  | .claimed i =>
    if answer.fault then s.fail k i .io else (s.setContents i .empty).setPhase k (.truncated i)
  | .truncated i => if answer.fault then s.fail k i .io else s.writeAll setup k i answer.short
  | .written i => if answer.fault then s.fail k i .io else s.setPhase k (.holding i)
  | .releasing i => if answer.fault then s.setPhase k (.released i) else s.readPath setup k i
  | .matched i =>
    if answer.fault then s.setPhase k (.released i)
    else { s with path := none }.setPhase k (.released i)
  | .released i => (s.close k i).setPhase k .over
  | .holding _ | .failed _ | .over | .dead => s

def release : State n :=
  match s.phase k with
  | .holding i => s.setPhase k (.releasing i)
  | _ => s

/-- The kernel closes what the process had open. -/
def die (process : ℕ) : State n :=
  { s with
    phase := fun k => if setup.process k = process then .dead else s.phase k
    locks := fun i => (s.locks i).filter fun k => setup.process k ≠ process }

end State

def step (s : State n) : Event n → State n
  | .run k answer => s.run setup k answer
  | .release k => s.release k
  | .die process => s.die setup process

end Step

/-- No acquire is under way; the path may have been left behind by anyone. -/
def initial (n : ℕ) (path : Option Inode) (contents : Inode → Contents) (nextInode : Inode) :
    State n :=
  ⟨fun _ => .start, path, contents, fun _ => none, nextInode⟩

/-- The acquire returned a guard whose `held` is set. -/
def Holds {n : ℕ} (s : State n) (k : Fin n) : Prop := ∃ i, s.phase k = .holding i

/-- A `try_lock` that is about to succeed is on the file that the path still names. -/
def InPlace {n : ℕ} (s : State n) : Event n → Prop
  | .run k answer =>
    ∀ i, s.phase k = .opened i → answer.fault = false → s.locks i = none → s.path = some i
  | .release _ | .die _ => True

def Phase.lock : Phase → Option Inode
  | .locked i | .examined i _ | .claimed i | .truncated i | .written i | .holding i
  | .releasing i | .matched i | .released i => some i
  | .start | .opened _ | .refused _ | .failed _ | .over | .dead => none

/-- The file that the path must go on naming: locked and not removed. -/
def Phase.kept : Phase → Option Inode
  | .released _ => none
  | phase => phase.lock

theorem Phase.lock_of_kept {phase : Phase} {i : Inode} (h : phase.kept = some i) :
    phase.lock = some i := by
  cases phase <;> first | exact h | cases h

/-- A file's lock has one owner at most, and the path names what a living one keeps. -/
structure Safe {n : ℕ} (s : State n) : Prop where
  owned : ∀ k i, (s.phase k).lock = some i → s.locks i = some k
  named : ∀ k i, (s.phase k).kept = some i → s.path = some i

namespace Safe

variable {n : ℕ} {setup : Setup n} {s : State n} {k : Fin n}

theorem initial (path : Option Inode) (contents : Inode → Contents) (nextInode : Inode) :
    Safe (initial n path contents nextInode) :=
  ⟨nofun, nofun⟩

section

variable (h : Safe s)
include h

theorem eq_of_kept {l : Fin n} {i j : Inode} (hk : (s.phase k).kept = some i)
    (hl : (s.phase l).kept = some j) : k = l := by
  have hij : i = j := Option.some.inj ((h.named k i hk).symm.trans (h.named l j hl))
  subst hij
  have howned := h.owned k i (Phase.lock_of_kept hk)
  rw [h.owned l i (Phase.lock_of_kept hl)] at howned
  exact (Option.some.inj howned).symm

theorem setPhase (phase : Phase) (hlock : ∀ i, phase.lock = some i →
    (s.phase k).lock = some i) (hkept : ∀ i, phase.kept = some i → (s.phase k).kept = some i) :
    Safe (s.setPhase k phase) := by
  refine ⟨fun l i hl => ?_, fun l i hl => ?_⟩
  · by_cases hlk : l = k
    · subst hlk
      exact h.owned l i (hlock i (by simpa [State.setPhase] using hl))
    · exact h.owned l i (by simpa [State.setPhase, hlk] using hl)
  · by_cases hlk : l = k
    · subst hlk
      exact h.named l i (hkept i (by simpa [State.setPhase] using hl))
    · exact h.named l i (by simpa [State.setPhase, hlk] using hl)

theorem move {old phase : Phase} (hk : s.phase k = old) (hlock : phase.lock = old.lock)
    (hkept : phase.kept = none ∨ phase.kept = old.kept) : Safe (s.setPhase k phase) := by
  refine h.setPhase phase (fun i hi => by rw [hk, ← hlock, hi]) fun i hi => ?_
  rcases hkept with hnone | hsame
  · rw [hnone] at hi
    cases hi
  · rw [hk, ← hsame, hi]

theorem setContents (i : Inode) (contents : Contents) :
    Safe (s.setContents i contents) :=
  ⟨h.owned, h.named⟩

theorem close (i : Inode) {phase : Phase} (hphase : phase.lock = none) :
    Safe ((s.close k i).setPhase k phase) := by
  have hkept : phase.kept = none := by
    cases hphase' : phase.kept with
    | none => rfl
    | some j => rw [Phase.lock_of_kept hphase'] at hphase; cases hphase
  refine ⟨fun l j hl => ?_, fun l j hl => ?_⟩
  · by_cases hlk : l = k
    · subst hlk
      simp [State.setPhase, hphase] at hl
    · have howned := h.owned l j (by simpa [State.setPhase, State.close, hlk] using hl)
      by_cases hji : j = i
      · subst hji
        simp [State.setPhase, State.close, howned, hlk]
      · simpa [State.setPhase, State.close, hji] using howned
  · by_cases hlk : l = k
    · subst hlk
      simp [State.setPhase, hkept] at hl
    · exact h.named l j (by simpa [State.setPhase, State.close, hlk] using hl)

theorem fail (i : Inode) (err : PidError) : Safe (s.fail k i err) :=
  h.close i rfl

theorem openPath : Safe (s.openPath k) := by
  unfold State.openPath
  cases hpath : s.path with
  | some i => exact h.setPhase _ nofun nofun
  | none =>
    have hmade : Safe { s with path := some s.nextInode, nextInode := s.nextInode + 1 } := by
      refine ⟨h.owned, fun l i hl => ?_⟩
      have hnamed := h.named l i hl
      rw [hpath] at hnamed
      cases hnamed
    exact (hmade.setContents s.nextInode .empty).setPhase _ nofun nofun

theorem tryLock {i : Inode} (hplace : s.locks i = none → s.path = some i) :
    Safe (s.tryLock k i) := by
  unfold State.tryLock
  cases hlock : s.locks i with
  | some l => exact h.setPhase _ nofun nofun
  | none =>
    refine ⟨fun l j hl => ?_, fun l j hl => ?_⟩
    · by_cases hlk : l = k
      · subst hlk
        have hij : i = j := by simpa [State.setPhase, Phase.lock] using hl
        subst hij
        simp [State.setPhase]
      · have howned := h.owned l j (by simpa [State.setPhase, hlk] using hl)
        have hji : j ≠ i := by rintro rfl; rw [hlock] at howned; cases howned
        simpa [State.setPhase, hji] using howned
    · by_cases hlk : l = k
      · subst hlk
        have hij : i = j := by simpa [State.setPhase, Phase.kept, Phase.lock] using hl
        subst hij
        exact hplace hlock
      · exact h.named l j (by simpa [State.setPhase, hlk] using hl)

theorem remove {i : Inode} (hk : s.phase k = .matched i) :
    Safe ({ s with path := none }.setPhase k (.released i)) := by
  refine ⟨fun l j hl => ?_, fun l j hl => ?_⟩
  · have hmoved : Safe (s.setPhase k (.released i)) := h.move hk rfl (.inl rfl)
    exact hmoved.owned l j hl
  · by_cases hlk : l = k
    · subst hlk
      simp [State.setPhase, Phase.kept] at hl
    · have hkept : (s.phase l).kept = some j := by simpa [State.setPhase, hlk] using hl
      exact absurd (h.eq_of_kept hkept (by rw [hk]; rfl)) hlk

theorem die (process : ℕ) : Safe (s.die setup process) := by
  refine ⟨fun l i hl => ?_, fun l i hl => ?_⟩ <;> by_cases hl' : setup.process l = process
  · simp [State.die, hl', Phase.lock] at hl
  · have howned := h.owned l i (by simpa [State.die, hl'] using hl)
    simp [State.die, howned, hl']
  · simp [State.die, hl', Phase.kept, Phase.lock] at hl
  · exact h.named l i (by simpa [State.die, hl'] using hl)

theorem run (answer : Answer) (hplace : InPlace s (.run k answer)) :
    Safe (s.run setup k answer) := by
  unfold State.run
  cases hk : s.phase k with
  | start =>
    dsimp only
    split
    · exact h.setPhase _ nofun nofun
    · exact h.openPath
  | opened i =>
    dsimp only
    split
    · exact h.fail i _
    · next hfault => exact h.tryLock (hplace i hk (by simpa using hfault))
  | refused i => exact h.fail i _
  | locked i | written i =>
    dsimp only
    split
    · exact h.fail i _
    · exact h.move hk rfl (.inr rfl)
  | examined i existing =>
    have hclaimed : Safe (s.setPhase k (.claimed i)) := h.move hk rfl (.inr rfl)
    dsimp only [State.examine]
    split
    · exact hclaimed
    · split
      · exact h.fail i _
      · exact hclaimed
  | claimed i =>
    dsimp only
    split
    · exact h.fail i _
    · exact (h.setContents i _).move hk rfl (.inr rfl)
  | truncated i =>
    dsimp only
    split
    · exact h.fail i _
    · cases answer.short with
      | some part => exact h.setContents i part
      | none => exact (h.setContents i _).move hk rfl (.inr rfl)
  | releasing i =>
    have hreleased : Safe (s.setPhase k (.released i)) := h.move hk rfl (.inl rfl)
    dsimp only [State.readPath]
    split
    · exact hreleased
    · split
      · exact hreleased
      · split
        · exact h.move hk rfl (.inr rfl)
        · exact hreleased
  | matched i =>
    dsimp only
    split
    · exact h.move hk rfl (.inl rfl)
    · exact h.remove hk
  | released i => exact h.close i rfl
  | holding _ | failed _ | «over» | dead => exact h

theorem release : Safe (s.release k) := by
  unfold State.release
  cases hk : s.phase k with
  | holding i =>
    exact h.move hk rfl (.inr rfl)
  | _ => exact h

theorem step (event : Event n) (hplace : InPlace s event) :
    Safe (step setup s event) := by
  cases event with
  | run k answer => exact h.run answer hplace
  | release k => exact h.release
  | die process => exact h.die process

end

end Safe

/-- If no lock is taken on a file that lost its path, at most one guard is held. -/
theorem at_most_one_holder {n : ℕ} (setup : Setup n) (path : Option Inode)
    (contents : Inode → Contents) (nextInode : Inode) (events : List (Event n))
    (hplace : Along (step setup) InPlace (initial n path contents nextInode) events) :
    let s := events.foldl (step setup) (initial n path contents nextInode)
    ∀ k l, Holds s k → Holds s l → k = l := by
  intro s k l ⟨i, hk⟩ ⟨j, hl⟩
  have hstart : Safe (initial n path contents nextInode) := Safe.initial path contents nextInode
  have hsafe : Safe s := hplace.invariant (fun _ event h hevent => h.step event hevent) hstart
  exact hsafe.eq_of_kept (by rw [hk]; rfl) (by rw [hl]; rfl)

namespace Sample

def setup : Setup 3 := ⟨Fin.val, fun process => 100 + process⟩

def start : State 3 := initial 3 none (fun _ => .garbage) 0

/-- The system calls of an acquire that returns a guard, from `try_lock` on. -/
def afterOpen (k : Fin 3) : List (Event 3) := List.replicate 6 (.run k {})

def acquire (k : Fin 3) : List (Event 3) := .run k {} :: afterOpen k

def shutdown (k : Fin 3) : List (Event 3) :=
  [.release k, .run k {}, .run k {}, .run k {}, .die (setup.process k)]

/-- One daemon after the other, and a third that is refused. -/
def handover : List (Event 3) :=
  acquire 0 ++ shutdown 0 ++ acquire 1 ++ List.replicate 3 (.run 2 {})

instance (s : State 3) (event : Event 3) : Decidable (InPlace s event) :=
  match event with
  | .run k answer =>
    match h : s.phase k with
    | .opened i =>
      decidable_of_iff (answer.fault = false → s.locks i = none → s.path = some i)
        ⟨fun h' j hj => by rw [h] at hj; cases hj; exact h', fun h' => h' i h⟩
    | .start | .refused _ | .locked _ | .examined _ _ | .claimed _ | .truncated _ | .written _
    | .holding _ | .releasing _ | .matched _ | .released _ | .failed _ | .over | .dead =>
      isTrue fun i hi => by rw [h] at hi; cases hi
  | .release _ | .die _ => isTrue trivial

theorem at_most_one_holder_handover :
    let s := handover.foldl (step setup) start
    Holds s 1 ∧ s.phase 2 = .failed (.alreadyRunning 101) ∧ ∀ k l, Holds s k → Holds s l → k = l :=
  ⟨⟨1, by decide +kernel⟩, by decide +kernel,
    at_most_one_holder setup none (fun _ => .garbage) 0 handover (by decide +kernel)⟩

/-- The second daemon opens the file, and then the first removes it. -/
def unlinked : List (Event 3) := acquire 0 ++ [.run 1 {}] ++ shutdown 0

/-- The second locks the file that is gone, the third the one it creates. -/
def race : List (Event 3) := unlinked ++ afterOpen 1 ++ acquire 2

theorem two_holders :
    (unlinked.foldl (step setup) start).phase 0 = .dead ∧
      Holds (race.foldl (step setup) start) 1 ∧ Holds (race.foldl (step setup) start) 2 :=
  ⟨by decide +kernel, ⟨0, by decide +kernel⟩, ⟨1, by decide +kernel⟩⟩

end Sample

end Artel.PidFile
