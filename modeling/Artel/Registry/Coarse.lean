import Artel.Lib.View
import Artel.Registry.Registry

namespace Artel.Registry

variable {ν : Type} {I : World → (ℕ → ν) → Prop} {C : Label → Env → World → Prop} {me : ℕ} {v : ν}

/-- An invariant that reads neither disk nor forwarders, and of a session its kind. -/
structure Coarse (I : World → (ℕ → ν) → Prop) : Prop where
  modify : ∀ s V h f, I s V → (∀ c, (f c).session.kind = c.session.kind) → I (s.modify h f) V
  disk : ∀ s V disk, I s V → I { s with disk := disk } V
  forwarders : ∀ s V forwarders, I s V → I { s with forwarders := forwarders } V

namespace Coarse

section

variable (hc : Coarse I)
include hc

theorem lock (h : Handle) : Quiet I C me v (lock me h) := by
  apply Quiet.waitFor
  intro _ s V hI _ _
  dsimp only
  apply hc.modify s V h _ hI
  exact fun _ => rfl

theorem unlock (h : Handle) : Quiet I C me v (unlock h) := by
  apply Quiet.once
  intro _ s V hI _ _
  dsimp only
  apply hc.modify s V h _ hI
  exact fun _ => rfl

theorem update (h : Handle) {f : Session → Session}
    (hf : ∀ s, (f s).kind = s.kind) : Quiet I C me v (update h f) := by
  apply Quiet.once
  intro _ s V hI _ _
  dsimp only
  apply hc.modify s V h _ hI
  exact fun c => hf c.session

theorem emit (h : Handle) (event : Event) : Quiet I C me v (emit h event) := by
  apply Quiet.once
  intro _ s V hI _ _
  dsimp only
  apply hc.modify s V h _ hI
  exact fun _ => rfl

theorem store {α : Type} (l : Label) (op : Store.Disk → Store.IoResult α) :
    Quiet I C me v (store l op) := by
  apply Quiet.once
  intro e s V hI _ _
  split <;> exact hc.disk s V _ hI

theorem spawn (feeds : Option Handle) : Quiet I C me v (spawn feeds) :=
  .once fun _ s V hI _ _ => hc.forwarders s V _ hI

theorem abort (feeds : Option Handle) {s : World} {V : ℕ → ν} (hI : I s V) :
    I (abort feeds s) V := by
  cases feeds with
  | none => exact hI
  | some h => exact hc.forwarders s V _ hI

theorem joinMember (h : Handle) (peer : PeerInfo) :
    Follows I C me (fun a w => w = v ∧ ∀ h' head, a = .ok (.joined h' head) → h' = h)
      (joinMember me h peer) v := by
  unfold Registry.joinMember
  simp only [Fiber.bind_eq, Fiber.pure_eq]
  apply (hc.lock h).andThen
  intro s
  split
  · apply (hc.unlock h).andThen
    intro _
    refine ⟨rfl, fun h' head heq => ?_⟩
    cases heq
    rfl
  · apply (hc.store _ _).andThen
    intro result
    cases result with
    | error e =>
      apply (hc.unlock h).andThen
      intro _
      refine ⟨rfl, fun h' head heq => ?_⟩
      cases heq
    | ok _ =>
      refine (hc.update h ?_).andThen fun _ => ?_
      · exact fun _ => rfl
      apply (hc.emit h _).andThen
      intro _
      apply (hc.unlock h).andThen
      intro _
      refine ⟨rfl, fun h' head heq => ?_⟩
      cases heq
      rfl

end

end Coarse

/-- An invariant that does not read the slot and that an aborted forwarder does not break. -/
structure SlotBlind (I : World → (ℕ → ν) → Prop) : Prop where
  slot : ∀ s V slot generation, I s V →
    I { s with slot := slot, nextSlotGeneration := generation } V
  erase : ∀ s V h, I s V → I { s with forwarders := s.forwarders.erase h } V

namespace SlotBlind

section

variable (hb : SlotBlind I)
include hb

theorem abort (feeds : Option Handle) {s : World} {V : ℕ → ν} (hI : I s V) :
    I (abort feeds s) V := by
  cases feeds with
  | none => exact hI
  | some h => exact hb.erase s V h hI

theorem reserve (h : Handle) : Quiet I C me v (reserve h) := by
  apply Quiet.once
  intro _ s V hI _ _
  split <;> exact hb.slot s V _ _ hI

theorem releaseSlot (generation : ℕ) :
    Quiet I C me v (releaseSlot generation) := by
  apply Quiet.once
  intro _ s V hI _ _
  split
  · exact hb.slot s V none _ hI
  · exact hI

theorem finalize (generation : ℕ) (feeds : Option Handle) :
    Quiet I C me v (finalize generation feeds) := by
  apply Quiet.once
  intro _ s V hI _ _
  split
  · exact hb.slot s V (some (.live feeds)) _ hI
  · exact hb.abort feeds hI

theorem forget (h : Handle) : Quiet I C me v (forget h) := by
  apply Quiet.once
  intro _ s V hI _ _
  have hfree := hb.slot s V none s.nextSlotGeneration hI
  split
  · exact hb.abort _ hfree
  · exact hfree

theorem subscribeInner (h : Handle) {feeds : Option Handle}
    (hspawn : Quiet I C me v (spawn feeds)) : Quiet I C me v (subscribeInner h feeds) := by
  refine (hb.reserve h).option rfl fun generation => ?_
  have hgossip : Quiet I C me v gossip := .once fun _ _ _ hI _ _ => hI
  refine hgossip.option ?_ fun err => (hb.releaseSlot generation).andThen fun _ => rfl
  apply hspawn.andThen
  intro _
  exact (hb.finalize generation feeds).andThen fun _ => rfl

end

end SlotBlind

/-- An invariant that reads neither the map's writer, nor joins, nor what was published. -/
structure JoinBlind (I : World → (ℕ → ν) → Prop) : Prop where
  tables : ∀ s V writer pendingRemoteJoins watches joins published, I s V →
    I { s with
        writer := writer
        pendingRemoteJoins := pendingRemoteJoins
        watches := watches
        joins := joins
        published := published } V

namespace JoinBlind

section

variable (hb : JoinBlind I)
include hb

theorem writeMap (i : ℕ) : Quiet I C me v (writeMap i) :=
  .waitFor fun _ s V hI _ _ => hb.tables s V _ _ _ _ _ hI

theorem releaseMap : Quiet I C me v releaseMap :=
  .once fun _ s V hI _ _ => hb.tables s V _ _ _ _ _ hI

theorem publish (m : SessionMessage) : Quiet I C me v (publish m) :=
  .once fun _ s V hI _ _ => hb.tables s V _ _ _ _ _ hI

theorem finish (h : Handle) (ok : Bool) : Quiet I C me v (finish h ok) := by
  unfold Registry.finish
  simp only [Fiber.bind_eq]
  apply Quiet.andThen
  · exact Quiet.once fun _ s V hI _ _ => hb.tables s V _ _ _ _ _ hI
  · intro _
    exact Quiet.once fun _ s V hI _ _ => hb.tables s V _ _ _ _ _ hI

theorem joinSession (h : Handle) {R : Option String → ν → Prop}
    (hsubscribe : Follows I C me R (subscribeInner h (some h)) v) :
    Follows I C me R (joinSession h) v := by
  unfold Registry.joinSession
  simp only [Fiber.bind_eq]
  apply hsubscribe.bind
  intro r w hr s V e hI hv _ _
  exact Follows.keep hv (hb.tables s V _ _ _ _ _ hI) hr

end

end JoinBlind

end Artel.Registry
