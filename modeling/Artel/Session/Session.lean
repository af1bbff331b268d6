import Mathlib.Data.List.Sort
import Artel.Protocol.Ack
import Artel.Store.Fs

namespace Artel

open Store

inductive CapabilityAction
  | grant (peer : PeerId) (cap : Capability)
  | revoke (peer : PeerId)
  deriving DecidableEq

namespace CapabilityAction

def capWire : Wire Capability :=
  Wire.variant.map (fun c => match c with | .read => 0 | .readWrite => 1)
    (fun n => if n = 0 then some .read else if n = 1 then some .readWrite else none)
    (fun c => by cases c <;> rfl)

def encode : CapabilityAction → Bytes
  | grant peer cap => Wire.variant.put 0 ++ (Wire.peerId.pair capWire).put (peer, cap)
  | revoke peer => Wire.variant.put 1 ++ Wire.peerId.put peer

def decode (b : Bytes) : Option CapabilityAction :=
  match Wire.variant.get b with
  | some (0, rest) => ((Wire.peerId.pair capWire).decode rest).map fun x => grant x.1 x.2
  | some (1, rest) => (Wire.peerId.decode rest).map revoke
  | _ => none

end CapabilityAction

/-- The capability each peer holds; a peer without an entry may only read. -/
abbrev Caps := PeerId → Option Capability

structure Session where
  id : SessionId
  host : PeerId
  kind : SessionKind
  members : Finset PeerId
  log : List SessionMessage
  head : Seq
  hostEpoch : UInt64
  caps : Caps
  tickets : List TicketEntry
  workspaceTicket : Option Bytes

/-- Only the host grants or revokes, and nothing it does touches its own `ReadWrite`. -/
def applyCapabilityTo (caps : Caps) (host : PeerId) (m : SessionMessage) : Caps :=
  if m.peer.id ≠ host then caps
  else
    match CapabilityAction.decode m.payload with
    | none => caps
    | some (.grant peer cap) => if peer = host then caps else Function.update caps peer (some cap)
    | some (.revoke peer) => if peer = host then caps else Function.update caps peer none

def rootCaps (host : PeerId) : Caps := Function.update (fun _ => none) host (some .readWrite)

/-- Replay of the log's capability messages in seq order. -/
def projectCaps (host : PeerId) (log : List SessionMessage) : Caps :=
  (log.insertionSort fun a b => a.seq ≤ b.seq).foldl
    (fun caps m => if m.kind = .capability then applyCapabilityTo caps host m else caps)
    (rootCaps host)

namespace Session

def new (id : SessionId) (host : PeerId) (kind : SessionKind) : Session where
  id := id
  host := host
  kind := kind
  members := {host}
  log := []
  head := Seq.ZERO
  hostEpoch := 0
  caps := rootCaps host
  tickets := []
  workspaceTicket := none

def fromRecord (r : SessionRecord) : Session where
  id := r.id
  host := r.host
  kind := r.kind
  members := r.members
  log := r.log
  head := r.head
  hostEpoch := r.hostEpoch
  caps := projectCaps r.host r.log
  tickets := r.tickets
  workspaceTicket := r.workspaceTicket

def record (s : Session) : SessionRecord where
  id := s.id
  host := s.host
  members := s.members
  head := s.head
  log := s.log
  kind := s.kind
  hostEpoch := s.hostEpoch
  tickets := s.tickets
  workspaceTicket := s.workspaceTicket

def canWrite (s : Session) (peer : PeerId) : Bool := (s.caps peer).any Capability.permitsWrite

end Session

inductive SessionError
  | unknownSession (session : SessionId)
  | notMember (session : SessionId)
  | invalidTicket
  | storage (err : IoError)
  | internal (reason : String)
  | hostRejected (err : ProtocolError)
  | remoteTopicMissing (session : SessionId)
  | invalidAddr (reason : String)
  | notHost
  | sessionConflict (session : SessionId)
  | signatureRejected (peer : PeerId) (reason : String)
  | capabilityDenied (peer : PeerId) (had : Option Capability) (needed : Capability)
  | ticketExpired
  | invalidCapClaim (reason : String)
  | ticketNotAdmissible
  | payloadTooLarge (size max : ℕ)
  | reservedAction (action : String)
  /-- `head.next()` is `None`; the source panics here. -/
  | seqOverflow
  deriving DecidableEq

/-- The actions only the daemon injects; downgrade and rotate are not among them. -/
def reservedSystemAction (action : String) : Option String :=
  if action = TICKET_ACTION then some TICKET_ACTION
  else if action = UPGRADE_ACTION then some UPGRADE_ACTION
  else none

def isReserved (m : SessionMessage) : Bool :=
  m.kind = .system && (reservedSystemAction m.action).isSome

/-- A message the daemon makes itself: no seq, no signatures, never in a log. -/
def syntheticSystemMessage (host : PeerId) (action : String) (payload : Bytes) : SessionMessage where
  version := MESSAGE_FORMAT
  seq := Seq.ZERO
  timestampMs := 0
  peer := ⟨host, "host"⟩
  kind := .system
  action := action
  payload := payload
  signature := SIGNATURE_UNSIGNED
  hostSig := SIGNATURE_UNSIGNED

def syntheticTicketMessage (host : PeerId) (envelope : Bytes) : SessionMessage :=
  syntheticSystemMessage host TICKET_ACTION envelope

/-- What a subscriber is handed before the live events. -/
def replay (s : Session) (since : Option Seq) : List SessionMessage :=
  (s.workspaceTicket.map (syntheticTicketMessage s.host)).toList ++
    s.log.filter fun m => since.getD Seq.ZERO < m.seq ∧ isReserved m = false

end Artel
