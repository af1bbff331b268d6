import Mathlib.Algebra.Group.Pi.Basic
import Mathlib.Algebra.Order.Group.Multiset
import Artel.Lib.Run

namespace Artel.SessionSlots

open Function

inductive Slot (τ : Type)
  | reserved (generation : ℕ)
  | live (payload : τ)

def Slot.payload {τ : Type} : Option (Slot τ) → Multiset τ
  | some (.live payload) => {payload}
  | _ => 0

/-- It is held until it is finalized or dropped; its id may be forgotten meanwhile. -/
inductive SlotReservation (κ : Type)
  | undrawn
  | held (session : κ) (forgotten : Bool)
  | gone

/-- The slots, the reservations by their generations, and what became of the payloads of each id. -/
structure State (κ τ : Type) where
  inner : κ → Option (Slot τ)
  reservation : ℕ → SlotReservation κ
  given : κ → Multiset τ
  returned : κ → Multiset τ
  handedBack : κ → Multiset τ

inductive Event (κ τ : Type)
  /-- Generations are drawn before the lock is taken, and need not come in order. -/
  | reserve (session : κ) (generation : ℕ)
  | finalize (generation : ℕ) (payload : τ)
  | drop (generation : ℕ)
  | forget (session : κ)

namespace State

variable {κ τ : Type} [DecidableEq κ]

def new : State κ τ := ⟨fun _ => none, fun _ => .undrawn, 0, 0, 0⟩

variable (s : State κ τ)

def ours (session : κ) (generation : ℕ) : Bool :=
  match s.inner session with
  | some (.reserved g) => g = generation
  | _ => false

/-- The end of a reservation, which changes the slot if it is still its own. -/
def close (session : κ) (generation : ℕ) (slot : Option (Slot τ)) : State κ τ :=
  { s with
    inner := if s.ours session generation then update s.inner session slot else s.inner
    reservation := update s.reservation generation .gone }

def forget (session : κ) : State κ τ :=
  { s with
    inner := update s.inner session none
    returned := s.returned + Pi.single session (Slot.payload (s.inner session))
    reservation := fun generation =>
      match s.reservation generation with
      | .held id forgotten => .held id (forgotten || id = session)
      | reservation => reservation }

def step (s : State κ τ) : Event κ τ → State κ τ
  | .reserve session generation =>
    match s.reservation generation, s.inner session with
    | .undrawn, none =>
      { s with
        inner := update s.inner session (some (.reserved generation))
        reservation := update s.reservation generation (.held session false) }
    | _, _ => s
  | .finalize generation payload =>
    match s.reservation generation with
    | .held session _ =>
      let back := if s.ours session generation then 0 else {payload}
      { s.close session generation (some (.live payload)) with
        given := s.given + Pi.single session {payload}
        handedBack := s.handedBack + Pi.single session back }
    | _ => s
  | .drop generation =>
    match s.reservation generation with
    | .held session _ => s.close session generation none
    | _ => s
  | .forget session => s.forget session

/-- A reservation is valid until its id is forgotten, and every payload is somewhere. -/
structure Sound (s : State κ τ) : Prop where
  ours : ∀ generation session forgotten, s.reservation generation = .held session forgotten →
    s.ours session generation = !forgotten
  payloads : ∀ id, s.given id = Slot.payload (s.inner id) + s.returned id + s.handedBack id

variable {s} {session id : κ} {generation : ℕ}

omit [DecidableEq κ] in
theorem ours_iff : s.ours session generation ↔ s.inner session = some (.reserved generation) := by
  unfold ours
  split <;> simp_all

theorem ours_update {slot : Option (Slot τ)} (hslot : slot ≠ some (.reserved generation))
    (hold : s.inner session ≠ some (.reserved generation)) :
    State.ours { s with inner := update s.inner session slot } id generation =
      s.ours id generation := by
  rw [Bool.eq_iff_iff, ours_iff, ours_iff]
  by_cases hid : id = session
  · simp [hid, hslot, hold]
  · simp [hid]

theorem payload_close (slot : Option (Slot τ)) :
    Slot.payload ((s.close session generation slot).inner id) = Slot.payload (s.inner id) +
      (Pi.single session (if s.ours session generation then Slot.payload slot else 0) :
        κ → Multiset τ) id := by
  unfold State.close
  split
  · rename_i hours
    by_cases hid : id = session
    · simp [hid, ours_iff.mp hours, Slot.payload]
    · simp [hid]
  · simp

theorem Sound.close (h : Sound s) {slot : Option (Slot τ)}
    (hslot : ∀ g, slot ≠ some (.reserved g)) (g : ℕ) (id : κ) (forgotten : Bool)
    (hheld : (s.close session generation slot).reservation g = .held id forgotten) :
    (s.close session generation slot).ours id g = !forgotten := by
  by_cases hg : g = generation
  · simp [State.close, hg] at hheld
  have hheld : s.reservation g = .held id forgotten := by simpa [State.close, hg] using hheld
  rw [← h.ours g id forgotten hheld]
  unfold State.close
  split
  · rename_i hours
    refine ours_update (hslot g) ?_
    simpa [ours_iff.mp hours] using Ne.symm hg
  · rfl

theorem Sound.step (h : Sound s) (event : Event κ τ) : Sound (s.step event) := by
  cases event with
  | reserve session generation =>
    simp only [State.step]
    split
    · rename_i hnone
      refine ⟨fun g id forgotten hheld => ?_, fun id => ?_⟩
      · by_cases hg : g = generation
        · subst hg
          obtain ⟨rfl, rfl⟩ : session = id ∧ false = forgotten := by simpa using hheld
          simp [State.ours]
        · rw [← h.ours g id forgotten (by simpa [hg] using hheld)]
          exact ours_update (by simpa using Ne.symm hg) (by simp [hnone])
      · rw [h.payloads]
        by_cases hid : id = session
        · simp [hid, hnone, Slot.payload]
        · simp [hid]
    · exact h
  | finalize generation payload =>
    simp only [State.step]
    split
    · refine ⟨h.close nofun, fun id => ?_⟩
      dsimp only [Pi.add_apply]
      rw [payload_close, h.payloads, show Slot.payload (some (.live payload)) = {payload} from rfl]
      split <;> simp [State.close, add_assoc, add_comm, add_left_comm]
    · exact h
  | drop generation =>
    simp only [State.step]
    split
    · refine ⟨h.close nofun, fun id => ?_⟩
      rw [payload_close]
      simpa [Slot.payload, State.close] using h.payloads id
    · exact h
  | forget session =>
    refine ⟨fun g id forgotten hheld => ?_, fun id => ?_⟩
    · simp only [State.step, State.forget] at hheld ⊢
      split at hheld
      · rename_i before hbefore
        cases hheld
        by_cases hid : id = session
        · simp [State.ours, hid]
        · simpa [State.ours, hid] using h.ours g id before hbefore
      · rename_i hnot
        exact absurd hheld (hnot _ _)
    · by_cases hid : id = session
      · simp [State.step, State.forget, h.payloads, hid, Slot.payload, add_comm]
      · simp [State.step, State.forget, h.payloads, hid]

end State

end Artel.SessionSlots
