import Mathlib.Data.Finset.Basic
import Artel.Lib.Run
import Artel.Protocol.Message

namespace Artel.Ipc

open List

/-- An event of the daemon; the reader looks at its session only. -/
inductive Event (β : Type)
  | gap (session : SessionId)
  | other (session : SessionId) (body : β)

def Event.session {β : Type} : Event β → SessionId
  | .gap session | .other session _ => session

inductive Frame (β : Type)
  | response (id : UInt64)
  | event (event : Event β)
  | request

/-- The reader task and its queue, with what came off the wire and what was consumed. -/
structure Reader (β : Type) where
  gaps : Finset SessionId
  queue : List (Event β)
  pending : Finset UInt64
  answered : List UInt64
  /-- The consumer has kept its end of the queue. -/
  kept : Bool
  wire : List (Event β)
  consumed : List (Event β)

inductive ReaderEvent (β : Type)
  | frame (frame : Frame β)
  /-- `reserve` gives a permit while a gap is pending. -/
  | flush (session : SessionId)
  | consume
  | drop
  | request (id : UInt64)

/-- A session's events as they are told: in order, and a gap for each run that is left out. -/
inductive Told {β : Type} (session : SessionId) : List (Event β) → List (Event β) → Bool → Prop
  | nil : Told session [] [] false
  | event {wire told : List (Event β)} (e : Event β) (h : Told session wire told false) :
      Told session (wire ++ [e]) (told ++ [e]) false
  | lost {wire told : List (Event β)} {owed : Bool} (e : Event β)
      (h : Told session wire told owed) : Told session (wire ++ [e]) told true
  | gap {wire told : List (Event β)} (h : Told session wire told true) :
      Told session wire (told ++ [.gap session]) false

namespace Reader

variable {β : Type} {capacity : ℕ} {r : Reader β}

def new : Reader β := ⟨∅, [], ∅, [], true, [], []⟩

def handle (capacity : ℕ) (r : Reader β) : Frame β → Reader β
  | .response id =>
    if id ∈ r.pending then
      { r with pending := r.pending.erase id, answered := r.answered ++ [id] }
    else r
  | .event event =>
    let r := { r with wire := r.wire ++ [event] }
    if event.session ∈ r.gaps ∨ r.kept = false then r
    else if r.queue.length < capacity then { r with queue := r.queue ++ [event] }
    else { r with gaps := insert event.session r.gaps }
  | .request => r

def step (capacity : ℕ) (r : Reader β) : ReaderEvent β → Reader β
  | .frame frame => r.handle capacity frame
  | .flush session =>
    if session ∉ r.gaps then r
    else if r.kept = false then { r with gaps := ∅ }
    else if r.queue.length < capacity then
      { r with gaps := r.gaps.erase session, queue := r.queue ++ [.gap session] }
    else r
  | .consume => { r with queue := r.queue.tail, consumed := r.consumed ++ r.queue.take 1 }
  | .drop => { r with kept := false }
  | .request id => { r with pending := insert id r.pending }

def ofSession (session : SessionId) (events : List (Event β)) : List (Event β) :=
  events.filter fun event => event.session = session

/-- While there is somebody to tell, every session's events are told or owe a gap. -/
def Accounts (r : Reader β) : Prop :=
  r.kept = true → ∀ session, Told session (ofSession session r.wire)
    (ofSession session (r.consumed ++ r.queue)) (session ∈ r.gaps)

theorem Accounts.handle (h : r.Accounts) (frame : Frame β) :
    (r.handle capacity frame).Accounts := by
  cases frame with
  | response id =>
    simp only [Reader.handle]
    split <;> exact h
  | request => exact h
  | event event =>
    intro hkept session
    have hheld : r.kept = true := by
      revert hkept
      simp only [Reader.handle]
      (repeat' split) <;> exact id
    have hold := h hheld session
    simp only [Reader.handle, hheld, Bool.true_eq_false, or_false]
    by_cases hsession : event.session = session
    · subst hsession
      split
      · rename_i hgap
        simpa [ofSession, hgap] using hold.lost event
      rename_i hfree
      split
      · simp only [hfree] at hold
        simpa [ofSession, hfree] using hold.event event
      · simpa [ofSession] using hold.lost event
    · split
      · simpa [ofSession, hsession] using hold
      split
      · simpa [ofSession, hsession] using hold
      · simpa [ofSession, hsession, Ne.symm hsession] using hold

theorem Accounts.step (h : r.Accounts) (e : ReaderEvent β) : (r.step capacity e).Accounts := by
  cases e with
  | frame frame => exact h.handle frame
  | flush session =>
    simp only [Reader.step]
    split
    · exact h
    rename_i hin
    split
    · rename_i hdropped
      exact fun hkept => absurd hkept (by simp [hdropped])
    split
    · intro hkept other
      have hold := h hkept other
      by_cases hsession : session = other
      · subst hsession
        simp only [not_not.mp hin] at hold
        simpa [ofSession, Event.session] using hold.gap
      · simpa [ofSession, Event.session, hsession, Ne.symm hsession] using hold
    · exact h
  | consume =>
    intro hkept session
    have hqueue : r.consumed ++ r.queue.take 1 ++ r.queue.tail = r.consumed ++ r.queue := by
      rw [append_assoc, ← drop_one, take_append_drop]
    simp only [Reader.step, hqueue]
    exact h hkept session
  | drop => exact fun hkept => by cases hkept
  | request id => exact h

end Reader

end Artel.Ipc
