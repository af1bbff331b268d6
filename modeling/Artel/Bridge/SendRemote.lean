import Artel.Lib.Fiber
import Artel.Session.Send

namespace Artel

open Function

inductive BridgeError
  | iroh (reason : String)
  | unknownSession (session : SessionId)
  | sendTimeout
  | hostRejected (err : ProtocolError)
  | invalidAddr (reason : String)
  | payloadTooLarge (size max : ℕ)
  deriving DecidableEq

structure SendPayload where
  kind : MessageKind
  action : String
  payload : Bytes
  deriving DecidableEq

structure SignedSendPayload extends SendPayload where
  timestampMs : UInt64
  signature : SigBytes

def GOSSIP_WIRE_VERSION : UInt8 := 3

/-- `gossip::encode` of a `SendRequest`, the second variant of the gossip body. -/
def encodeSendRequest (reqId : Uuid) (peer : PeerInfo) (p : SignedSendPayload) : Bytes :=
  [GOSSIP_WIRE_VERSION] ++ Wire.variant.put 1 ++ Wire.uuid.put reqId ++ Wire.peerInfo.put peer ++
    Wire.varint64.put p.timestampMs ++ Wire.messageKind.put p.kind ++ Wire.text.put p.action ++
    Wire.bytes.put p.payload ++ (Wire.fixed 64).put p.signature

inductive GossipBody
  | message (m : SessionMessage)
  | sendRequest (reqId : Uuid) (peer : PeerInfo) (payload : SignedSendPayload)
  | sendAck (reqId : Uuid) (result : Verdict) (hostSig : SigBytes)
  | joinAnnouncement (peer : PeerInfo) (timestampMs : UInt64) (ticketId : TicketId)
    (grantedCap : Capability) (expiryMs hostEpoch : UInt64) (capSig : SigBytes)
  | sessionClosed (hostEpoch : UInt64) (hostSig : SigBytes)
  | epochBeacon (hostEpoch : UInt64) (hostSig : SigBytes)
  | replay (since : Seq)

namespace GossipBody

def encode : GossipBody → Bytes
  | message m => [GOSSIP_WIRE_VERSION] ++ Wire.variant.put 0 ++ Wire.sessionMessage.put m
  | sendRequest reqId peer payload => encodeSendRequest reqId peer payload
  | sendAck reqId result hostSig =>
    let verdict := match result with
      | .ok m => Wire.variant.put 0 ++ Wire.sessionMessage.put m
      | .error err => Wire.variant.put 1 ++ ProtocolError.wire.put err
    [GOSSIP_WIRE_VERSION] ++ Wire.variant.put 2 ++ Wire.uuid.put reqId ++ verdict ++
      (Wire.fixed 64).put hostSig
  | joinAnnouncement peer timestampMs ticketId grantedCap expiryMs hostEpoch capSig =>
    [GOSSIP_WIRE_VERSION] ++ Wire.variant.put 3 ++ Wire.peerInfo.put peer ++
      Wire.varint64.put timestampMs ++ Wire.ticketId.put ticketId ++
      CapabilityAction.capWire.put grantedCap ++ Wire.varint64.put expiryMs ++
      Wire.varint64.put hostEpoch ++ (Wire.fixed 64).put capSig
  | sessionClosed hostEpoch hostSig =>
    [GOSSIP_WIRE_VERSION] ++ Wire.variant.put 4 ++ Wire.varint64.put hostEpoch ++
      (Wire.fixed 64).put hostSig
  | epochBeacon hostEpoch hostSig =>
    [GOSSIP_WIRE_VERSION] ++ Wire.variant.put 5 ++ Wire.varint64.put hostEpoch ++
      (Wire.fixed 64).put hostSig
  | replay since => [GOSSIP_WIRE_VERSION] ++ Wire.variant.put 6 ++ Wire.seq.put since

/-- The sequenced message that a broadcast, live or replayed, or an ack carries. -/
def carried : GossipBody → Option SessionMessage
  | message m => some m
  | sendAck _ (.ok m) _ => some m
  | _ => none

theorem encode_message_length (m : SessionMessage) :
    (message m).encode.length = messageFrameLen m := by
  simp [encode, messageFrameLen, Store.encodeMessage, Wire.variant, Wire.putVarint]
  omega

theorem encode_sendAck_length (reqId : Uuid) (m : SessionMessage) (hostSig : SigBytes) :
    (sendAck reqId (.ok m) hostSig).encode.length = messageFrameLen m + 83 := by
  simp [encode, messageFrameLen, Store.encodeMessage, Wire.variant, Wire.putVarint, Wire.uuid,
    Wire.fixed, Wire.map, Wire.bytes, reqId.property, hostSig.property]
  omega

theorem length_le_of_carried {body : GossipBody} {m : SessionMessage} (h : body.carried = some m) :
    body.encode.length ≤ messageFrameLen m + SESSION_MESSAGE_CARRIER_OVERHEAD := by
  unfold SESSION_MESSAGE_CARRIER_OVERHEAD
  cases body with
  | message m =>
    cases h
    rw [encode_message_length]
    omega
  | sendAck reqId result hostSig =>
    cases result with
    | ok m =>
      cases h
      rw [encode_sendAck_length]
      omega
    | error => cases h
  | _ => cases h

/-- What a send has let pass, every frame that carries it can be broadcast. -/
theorem carriers_fit (m : SessionMessage) :
    messageFrameLen m = (message m).encode.length ∧
    (messageFrameLen m ≤ MAX_SESSION_MESSAGE_FRAME →
      ∀ body : GossipBody, body.carried = some m → body.encode.length ≤ MAX_GOSSIP_FRAME) ∧
    ∀ (ed : Ed25519) (d : Daemon ed) (s : Session) (nowMs : UInt64) (draft : Draft),
      prepareSend d s nowMs draft = .ok m → messageFrameLen m ≤ MAX_SESSION_MESSAGE_FRAME := by
  refine ⟨(encode_message_length m).symm, fun hle body hbody => ?_, ?_⟩
  · have hlen := length_le_of_carried hbody
    have hmax : MAX_SESSION_MESSAGE_FRAME + SESSION_MESSAGE_CARRIER_OVERHEAD = MAX_GOSSIP_FRAME := by
      decide
    omega
  · intro ed d s nowMs draft h
    -- the size is the last thing that a send looks at
    grind [prepareSend]

end GossipBody

namespace Bridge

structure Request where
  call : ℕ
  session : SessionId
  reqId : Uuid
  deriving DecidableEq

/-- What forwarders and calls share. A call and its oneshot are named by its index. -/
structure State where
  /-- The sessions with a live slot. -/
  live : SessionId → Bool
  pendingSends : Uuid → Option ℕ
  /-- What each call's oneshot channel carries. -/
  replies : ℕ → Option Verdict
  broadcasts : List (SessionId × Bytes)
  /-- Every request made so far; nothing reads it. -/
  requests : List Request
  /-- The channels sent to so far; nothing reads it. -/
  resolved : List ℕ
  /-- What each key has signed so far; nothing reads it. -/
  signed : List (PeerId × Bytes)

/-- Why a wait ends: the channel carries a value, its sender is gone, or the time is up. -/
inductive Wake
  | reply
  | canceled
  | elapsed
  deriving DecidableEq

structure Env where
  /-- The draw of `Uuid::new_v4`. -/
  reqId : Uuid
  nowMs : UInt64
  broadcastError : Option String
  wake : Wake

inductive Label
  | mapLive (session : SessionId)
  | insertPending (session : SessionId)
  | removePending (reqId : Uuid)
  | clock
  | broadcast
  | awaitReply
  | verify (topic : SessionId) (reqId : Uuid) (result : Verdict) (hostSig : SigBytes)
  | takePending (topic : SessionId) (reqId : Uuid)
  | resolve
  | slot (session : SessionId)
  | sign

abbrev Async (α : Type) := Fiber State Env Label α

open Artel.Fiber

def mapLive (session : SessionId) : Async Bool :=
  once (.mapLive session) fun _ s => (s.live session, s)

/-- Draws the id and stores the sender under it; an entry under the same id is replaced. -/
def insertPending (me : ℕ) (session : SessionId) : Async Uuid :=
  once (.insertPending session) fun e s =>
    (e.reqId, { s with
      pendingSends := update s.pendingSends e.reqId (some me)
      requests := s.requests ++ [⟨me, session, e.reqId⟩] })

def removePending (reqId : Uuid) : Async Unit :=
  once (.removePending reqId) fun _ s =>
    ((), { s with pendingSends := update s.pendingSends reqId none })

def clock : Async UInt64 := once .clock fun e s => (e.nowMs, s)

def broadcast (session : SessionId) (bytes : Bytes) : Async (Option String) :=
  once .broadcast fun e s =>
    match e.broadcastError with
    | some err => (some err, s)
    | none => (none, { s with broadcasts := s.broadcasts ++ [(session, bytes)] })

/-- `timeout(SEND_REMOTE_TIMEOUT, reply_rx)`: a value that is there wins over the clock. -/
def awaitReply (me : ℕ) : Async (Wake × Option Verdict) :=
  waitFor .awaitReply
    (fun e s => if e.wake = .reply then (s.replies me).isSome else (s.replies me).isNone)
    fun e s => ((e.wake, s.replies me), s)

structure Config (ed : Ed25519) where
  authenticatedPeerId : PeerId
  signingKey : ed.SigningKey

variable {ed : Ed25519} (b : Config ed)

/-- The frame a send goes out as: the caller's peer id is replaced by the daemon's own. -/
def sendRequest (session : SessionId) (peer : PeerInfo) (p : SendPayload) (reqId : Uuid)
    (timestampMs : UInt64) : Bytes :=
  let peer := { peer with id := b.authenticatedPeerId }
  let signature := Signing.signBody ed b.signingKey session MESSAGE_FORMAT timestampMs peer p.kind
    p.action p.payload
  encodeSendRequest reqId peer { p with timestampMs := timestampMs, signature := signature }

def conclude (reqId : Uuid) : Wake × Option Verdict → Async (Except BridgeError SessionMessage)
  | (.elapsed, _) => do
    removePending reqId
    return .error .sendTimeout
  | (.reply, some (.ok m)) => return .ok m
  | (.reply, some (.error err)) => return .error (.hostRejected err)
  | (_, _) => return .error (.iroh "send_remote: pending entry dropped without ack")

def sendRemote (me : ℕ) (session : SessionId) (peer : PeerInfo) (p : SendPayload) :
    Async (Except BridgeError SessionMessage) := do
  match ← mapLive session with
  | false => return .error (.unknownSession session)
  | true =>
    -- the entry is there before the request goes out, so that no ack comes too early for it
    let reqId ← insertPending me session
    let timestampMs ← clock
    let bytes := sendRequest b session peer p reqId timestampMs
    if MAX_GOSSIP_FRAME < bytes.length then
      removePending reqId
      return .error (.payloadTooLarge bytes.length MAX_GOSSIP_FRAME)
    else
      match ← broadcast session bytes with
      | some err =>
        removePending reqId
        return .error (.iroh ("send_remote broadcast: " ++ err))
      | none =>
        let woken ← awaitReply me
        conclude reqId woken

variable (hostOf : SessionId → PeerId)

/-- `verify_ack` with the key of the topic's own host. -/
def verify (ed : Ed25519) (hostOf : SessionId → PeerId) (topic : SessionId) (reqId : Uuid)
    (result : Verdict) (hostSig : SigBytes) : Async (Except VerifyError Unit) :=
  once (.verify topic reqId result hostSig) fun _ s =>
    (Signing.verifyAck ed (hostOf topic) topic reqId result hostSig, s)

/-- The map is keyed by the request id alone. -/
def takePending (topic : SessionId) (reqId : Uuid) : Async (Option ℕ) :=
  once (.takePending topic reqId) fun _ s =>
    (s.pendingSends reqId, { s with pendingSends := update s.pendingSends reqId none })

def resolve (i : ℕ) (result : Verdict) : Async Unit :=
  once .resolve fun _ s =>
    ((), { s with
      replies := update s.replies i (some result)
      resolved := s.resolved ++ [i] })

/-- The `SendAck` arm of `handle_inbound_frame` on a topic this daemon joined. -/
def handleSendAck (ed : Ed25519) (topic : SessionId) (reqId : Uuid) (result : Verdict)
    (hostSig : SigBytes) : Async Unit := do
  match ← verify ed hostOf topic reqId result hostSig with
  | .error _ => return ()
  | .ok _ =>
    match ← takePending topic reqId with
    | none => return ()
    -- whoever asked under this id, on whatever topic
    | some i => resolve i result

def setSlot (session : SessionId) (live : Bool) : Async Unit :=
  once (.slot session) fun _ s => ((), { s with live := update s.live session live })

/-- The owner of a key signs some bytes, for this daemon or for anyone else. -/
def signs (key : PeerId) (scope : Bytes) : Async Unit :=
  once .sign fun _ s => ((), { s with signed := s.signed ++ [(key, scope)] })

/-- Sends, acks from any author on any topic, slots that come and go, and keys in use. -/
inductive Call
  | sendRemote (session : SessionId) (peer : PeerInfo) (payload : SendPayload)
  | sendAck (topic : SessionId) (reqId : Uuid) (result : Verdict) (hostSig : SigBytes)
  | setSlot (session : SessionId) (live : Bool)
  | signs (key : PeerId) (scope : Bytes)
  deriving DecidableEq

abbrev Reply := Option (Except BridgeError SessionMessage)

def Call.body (me : ℕ) : Call → Async Reply
  | .sendRemote session peer payload => do
    let r ← Bridge.sendRemote b me session peer payload
    return some r
  | .sendAck topic reqId result hostSig => do
    handleSendAck hostOf ed topic reqId result hostSig
    return none
  | .setSlot session live => do
    Bridge.setSlot session live
    return none
  | .signs key scope => do
    Bridge.signs key scope
    return none

def State.empty : State where
  live _ := false
  pendingSends _ := none
  replies _ := none
  broadcasts := []
  requests := []
  resolved := []
  signed := []

def runCalls (ms : List (Move Call Env)) : Pool Call State Env Label Reply :=
  Pool.run (Call.body b hostOf) ⟨.empty, []⟩ ms

def CallsMeet (C : Label → Env → State → Prop) (ms : List (Move Call Env)) : Prop :=
  Along (Pool.move (Call.body b hostOf)) (Pool.Meets (fun _ => True) C) ⟨.empty, []⟩ ms

instance (C : Label → Env → State → Prop) [∀ l e s, Decidable (C l e s)]
    (ms : List (Move Call Env)) : Decidable (CallsMeet b hostOf C ms) :=
  inferInstanceAs (Decidable (Along _ _ _ _))

end Bridge

end Artel
