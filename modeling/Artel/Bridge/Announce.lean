import Artel.Lib.Spares
import Artel.Bridge.SendRemote
import Artel.Registry.Calls

namespace Artel.Bridge

open Fiber

variable {ed : Ed25519} (b : Config ed)

def joinAnnouncement (peer : PeerInfo) (c : CapClaim) (timestampMs : UInt64) : Bytes :=
  (GossipBody.joinAnnouncement { peer with id := b.authenticatedPeerId } timestampMs c.ticketId
    c.grantedCap c.expiryMs c.hostEpoch c.capSig).encode

/-- A broadcast that fails is only logged. -/
def publishJoinAnnouncement (session : SessionId) (peer : PeerInfo) (c : CapClaim) :
    Async Unit := do
  match ← mapLive session with
  | false => return ()
  | true =>
    let timestampMs ← clock
    let _ ← broadcast session (joinAnnouncement b peer c timestampMs)
    return ()

def publishReplay (session : SessionId) (since : Seq) : Async Unit := do
  match ← mapLive session with
  | false => return ()
  | true =>
    let _ ← broadcast session (GossipBody.replay since).encode
    return ()

/-- `join_session`, given how its subscribe ends. -/
def joinSession (session : SessionId) (joiner : PeerInfo) (c : CapClaim)
    (subscribed : Except BridgeError Unit) : Async (Except BridgeError Unit) := do
  match subscribed with
  | .error err => return .error err
  | .ok _ =>
    setSlot session true
    publishJoinAnnouncement b session joiner c
    publishReplay session Seq.ZERO
    return .ok ()

def Fits (s s' : State) : Prop :=
  ∀ x ∈ s'.broadcasts, x ∈ s.broadcasts ∨ x.2.length ≤ MAX_GOSSIP_FRAME

/-- A request hands on no frame over the limit, or else it ends in an error. -/
abbrev Announced {α : Type} (t : Async (Except BridgeError α)) : Prop :=
  t.Spares Fits fun r => ∃ a, r = .ok a

/-- The announcement fits; of the request only the display name counts. -/
def ShortName (name : String) (c : CapClaim) : Prop :=
  ∀ timestampMs : UInt64, 118 + (Wire.text.put name).length +
    (Wire.varint64.put timestampMs).length + (Wire.varint64.put c.expiryMs).length +
    (Wire.varint64.put c.hostEpoch).length ≤ MAX_GOSSIP_FRAME

theorem joinAnnouncement_length (peer : PeerInfo) (c : CapClaim) (timestampMs : UInt64) :
    (joinAnnouncement b peer c timestampMs).length =
      118 + (Wire.text.put peer.displayName).length + (Wire.varint64.put timestampMs).length +
        (Wire.varint64.put c.expiryMs).length + (Wire.varint64.put c.hostEpoch).length := by
  have hcap : (CapabilityAction.capWire.put c.grantedCap).length = 1 := by
    cases c.grantedCap <;> rfl
  simp [joinAnnouncement, GossipBody.encode, hcap, Wire.variant, Wire.putVarint, Wire.uuid,
    Wire.ticketId, Wire.peerInfo, Wire.peerId, Wire.pair, Wire.fixed, Wire.map, Wire.bytes,
    b.authenticatedPeerId.bytes.property, c.ticketId.bytes.property, c.capSig.property]
  omega

theorem fits_refl (s : State) : Fits s s := fun _ => .inl

theorem each_broadcast {session : SessionId} {bytes : Bytes} (h : bytes.length ≤ MAX_GOSSIP_FRAME) :
    (broadcast session bytes).Each fun _ => Fits := by
  apply each_waitFor
  intro e s x hx
  cases he : e.broadcastError with
  | some err =>
    simp only [he] at hx
    exact .inl hx
  | none =>
    simp only [he, List.mem_append, List.mem_singleton] at hx
    obtain hx | rfl := hx
    · exact .inl hx
    · exact .inr h

theorem announced_sendRemote (me : ℕ) (session : SessionId) (peer : PeerInfo) (p : SendPayload) :
    Announced (sendRemote b me session peer p) := by
  apply Each.spares
  refine (each_waitFor fun _ => fits_refl).bind fun live => ?_
  cases live with
  | false => trivial
  | true =>
    refine (each_waitFor fun _ s => fits_refl s).bind fun reqId => ?_
    refine (each_waitFor fun _ => fits_refl).bind fun timestampMs => ?_
    dsimp only
    split
    · exact (each_waitFor fun _ s => fits_refl s).bind fun _ => trivial
    · rename_i hle
      refine (each_broadcast (Nat.le_of_not_lt hle)).option ?_ fun err => ?_
      · refine (each_waitFor fun _ => fits_refl).bind fun woken => ?_
        unfold conclude
        split
        · exact (each_waitFor fun _ s => fits_refl s).bind fun _ => trivial
        all_goals trivial
      · exact (each_waitFor fun _ s => fits_refl s).bind fun _ => trivial

theorem each_joinSession {session : SessionId} {joiner : PeerInfo} {c : CapClaim}
    (h : ShortName joiner.displayName c) :
    (joinSession b session joiner c (.ok ())).Each fun _ => Fits := by
  refine (each_waitFor fun _ s => fits_refl s).bind fun _ => ?_
  have hreplay : (publishReplay session Seq.ZERO).Each fun _ => Fits := by
    refine (each_waitFor fun _ => fits_refl).bind fun live => ?_
    cases live with
    | false => trivial
    | true => exact (each_broadcast (by decide)).bind fun _ => trivial
  have hpublish : (publishJoinAnnouncement b session joiner c).Each fun _ => Fits := by
    refine (each_waitFor fun _ => fits_refl).bind fun live => ?_
    cases live with
    | false => trivial
    | true =>
      refine (each_waitFor fun _ => fits_refl).bind fun timestampMs => ?_
      refine (each_broadcast ?_).bind fun _ => trivial
      rw [joinAnnouncement_length]
      exact h timestampMs
  exact hpublish.bind fun _ => hreplay.bind fun _ => trivial

theorem shortName_of_announced {session : SessionId} {joiner : PeerInfo} {c : CapClaim}
    (h : Announced (joinSession b session joiner c (.ok ()))) : ShortName joiner.displayName c := by
  intro timestampMs
  have hok : (joinSession b session joiner c (.ok ())).Returns fun r => ∃ a, r = .ok a := by
    exact returns_bind fun _ => returns_bind fun _ => returns_bind fun _ => ⟨(), rfl⟩
  let e : Env := ⟨⟨List.replicate 16 0, rfl⟩, timestampMs, none, .reply⟩
  let s : State := { State.empty with live := fun _ => true }
  -- the slot is live, the clock is read, and the frame goes out
  have hfits := ((((h.each hok e s).2 e s).2 e s).2 e s).1
  have hlen := (hfits (session, joinAnnouncement b joiner c timestampMs)
    List.mem_cons_self).resolve_left nofun
  rwa [joinAnnouncement_length] at hlen

/-- Sends stay within gossip's limit; joins do unless the display name is too long. -/
theorem frames_fit_iff (session : SessionId) (joiner : PeerInfo) (c : CapClaim) :
    (∀ me p, Announced (sendRemote b me session joiner p)) ∧
      ((∀ subscribed, Announced (joinSession b session joiner c subscribed)) ↔
        ShortName joiner.displayName c) := by
  refine ⟨fun me p => announced_sendRemote b me session joiner p, ?_, ?_⟩
  · exact fun h => shortName_of_announced b (h (.ok ()))
  · intro h subscribed
    cases subscribed with
    | error err => trivial
    | ok _ => exact (each_joinSession b h).spares

namespace Sample

open Artel.Sample

def longName (n : ℕ) : String := String.ofList (List.replicate n 'a')

theorem length_longName (n : ℕ) : (longName n).toByteArray.data.toList.length = n := by
  have hsize : (List.replicate n 'a').utf8Encode.size = n := by
    induction n with
    | zero => rfl
    | succ n ih =>
      rw [List.replicate_succ', List.utf8Encode_append, ByteArray.size_append, ih]
      rfl
  simpa [longName] using hsize

theorem not_announced {ed : Ed25519} (b : Config ed) (c : CapClaim) {n : ℕ}
    (hn : MAX_GOSSIP_FRAME ≤ n) :
    ¬ Announced (joinSession b session ⟨peer 1, longName n⟩ c (.ok ())) := by
  intro h
  have hshort := shortName_of_announced b h 0
  have hlen := length_longName n
  simp only [Wire.text, Wire.map, Wire.bytes, List.length_append, hlen] at hshort
  omega

def bridge : Config .checksum := ⟨peer 1, peer 1⟩

def claim : CapClaim := ⟨⟨⟨List.replicate 16 0, rfl⟩⟩, .readWrite, 0, 0, SIGNATURE_UNSIGNED⟩

/-- A display name of 1 MiB, which is well within what a client may send. -/
theorem long_name_announced :
    ¬ Announced (joinSession bridge session ⟨peer 1, longName MAX_GOSSIP_FRAME⟩ claim (.ok ())) :=
  not_announced bridge claim (Nat.le_refl _)

end Sample

end Artel.Bridge
