import Artel.Bridge.VerdictInvariant
import Artel.Registry.Sequencer

namespace Artel

open Store

def HEX_LOWER : List Char := "0123456789abcdef".toList

def PeerId.toHex (p : PeerId) : String :=
  String.ofList (p.bytes.val.flatMap fun (b : UInt8) =>
    [HEX_LOWER.getD (b >>> 4).toNat '0', HEX_LOWER.getD (b &&& 0x0f).toNat '0'])

def Capability.debug : Capability → String
  | .read => "Read"
  | .readWrite => "ReadWrite"

def Capability.debugOption : Option Capability → String
  | none => "None"
  | some cap => "Some(" ++ cap.debug ++ ")"

/-- `From<&SessionError> for ProtocolError`; there is none where the source panics. -/
def SessionError.toWire (ioText : IoError → String) : SessionError → Option ProtocolError
  | .unknownSession session => some (.unknownSession session)
  | .notMember _ => some (.internal "not a member")
  | .invalidTicket | .ticketExpired | .ticketNotAdmissible => some .invalidTicket
  | .storage err => some (.internal ("storage: " ++ ioText err))
  | .invalidAddr reason => some (.internal ("invalid addr: " ++ reason))
  | .internal reason => some (.internal reason)
  | .notHost => some .notHost
  | .remoteTopicMissing _ => some (.internal "remote session topic missing")
  | .sessionConflict session => some (.sessionConflict session)
  | .hostRejected err => some err
  | .signatureRejected peer reason => some (.signature (peer.toHex ++ ": " ++ reason))
  | .capabilityDenied peer had needed =>
    some (.capability (peer.toHex ++ ": had " ++ Capability.debugOption had ++ ", needs " ++
      needed.debug))
  | .invalidCapClaim reason => some (.internal ("invalid cap claim: " ++ reason))
  | .reservedAction action => some (.internal ("reserved system action: " ++ action))
  | .payloadTooLarge size max => some (.payloadTooLarge (.ofNat size) (.ofNat max))
  | .seqOverflow => none

/-- What the host's bridge has done with the requests of its joiners. -/
structure Desk where
  /-- The ids of the requests that were delivered, in order. -/
  delivered : List Uuid
  /-- The ids of the requests whose message went to the store. -/
  stored : List Uuid
  /-- The messages that came into a session's log, each with the id of its request. -/
  logged : List (Uuid × SessionMessage)
  /-- The acks that were signed and published. -/
  acks : List (Uuid × Verdict)

namespace Desk

def empty : Desk := ⟨[], [], [], []⟩

def note (reqId : Uuid) : Label → Env → World → World → Desk → Desk
  | .write _, _, _, _, g => { g with stored := g.stored ++ [reqId] }
  | .update h, _, s, s', g =>
    match Sequencer.newMessage (s.cells h).session (s'.cells h).session with
    | none => g
    | some m => { g with logged := g.logged ++ [(reqId, m)] }
  | _, _, _, _, g => g

end Desk

namespace Registry

open Artel.Fiber

variable {ed : Ed25519} (d : Daemon ed) (id : SessionId) (ioText : IoError → String)

/-- A joiner's body, stamp and signature go to `Registry::send` as they are. -/
def requestDraft (peer : PeerInfo) (p : SignedSendPayload) : Draft where
  peer := peer
  kind := p.kind
  action := p.action
  payload := p.payload
  authoring := .Remote p.timestampMs p.signature

def sendVerdict : Outcome → Option Verdict
  | .ok (.sent m) => some (.ok m)
  | .ok _ => none
  | .error err => (err.toWire ioText).map .error

/-- `publish_send_ack`: without a live topic the ack is dropped. -/
def publishSendAck (reqId : Uuid) (result : Verdict) : Fiber (World × Desk) Env Label Unit :=
  once .publish fun _ s =>
    ((), match s.1.slot with
      | some (.live _) => (s.1, { s.2 with acks := s.2.acks ++ [(reqId, result)] })
      | _ => s)

/-- The `SendRequest` arm. Whether the request was here before is not looked at. -/
def handleSendRequest (me : ℕ) (reqId : Uuid) (peer : PeerInfo) (p : SignedSendPayload)
    (deliveredFrom : PeerId) : Fiber (World × Desk) Env Label Unit := do
  if peer.id ≠ deliveredFrom then return ()
  else
    let result ← (send d id me (requestDraft peer p)).observe (Desk.note reqId)
    match sendVerdict ioText result with
    | none => return ()
    | some verdict => publishSendAck reqId verdict

end Registry

/-- What goes on at a host: the requests of its joiners, and everything else. -/
inductive DeskCall
  | request (reqId : Uuid) (peer : PeerInfo) (payload : SignedSendPayload) (deliveredFrom : PeerId)
  | plain (call : HostedCall)

def DeskCall.body {ed : Ed25519} (d : Daemon ed) (id : SessionId) (ioText : IoError → String)
    (me : ℕ) : DeskCall → Fiber (World × Desk) Env Label Unit
  | .request reqId peer payload deliveredFrom =>
    Registry.handleSendRequest d id ioText me reqId peer payload deliveredFrom
  | .plain call => ((call.body d id me).observe fun _ _ _ _ g => g).bind fun _ => .ret ()

def DeskCall.reqId : DeskCall → Option Uuid
  | .request reqId _ _ _ => some reqId
  | .plain _ => none

def DeskCall.arrive (o : DeskCall) (g : Desk) : Desk :=
  { g with delivered := g.delivered ++ o.reqId.toList }

abbrev DeskEvent := Happening DeskCall Env Disk

/-- After a crash the host starts with what the store gives back. -/
abbrev runDesk {ed : Ed25519} (d : Daemon ed) (id : SessionId) (ioText : IoError → String)
    (blank : Session) (s : World) (hs : List DeskEvent) :
    Pool DeskCall (World × Desk) Env Label Unit :=
  hs.foldl (Pool.attend (DeskCall.body d id ioText)
    (fun disk w => (Registry.load d id blank disk, w.2)) DeskCall.arrive) ⟨(s, Desk.empty), []⟩

end Artel
