import Artel.Registry.Slots

namespace Artel

open Store

inductive Reply
  | done
  | ticket (ticket : SessionTicket)
  /-- The mirror or session that was joined, and its head. -/
  | joined (h : Handle) (head : Option Seq)
  | sent (m : SessionMessage)
  /-- The replay, and where in the session's feed the live events start. -/
  | subscription (h : Handle) (replay : List SessionMessage) (start : ℕ)
  deriving DecidableEq

abbrev Outcome := Except SessionError Reply

structure CapClaim where
  ticketId : TicketId
  grantedCap : Capability
  expiryMs : UInt64
  hostEpoch : UInt64
  capSig : SigBytes
  deriving DecidableEq

/-- Only a local session has a ledger to check against. -/
def ticketAdmissible (s : Session) (claim : CapClaim) : Bool :=
  s.kind ≠ .Local || s.tickets.any fun t =>
    t.ticketId = claim.ticketId && t.status = .active && t.grantedCap = claim.grantedCap &&
      t.expiryMs = claim.expiryMs

/-- The ledger with the peer noted on the claim's entry, if that changes anything. -/
def recordUse (claim : CapClaim) (peer : PeerId) : List TicketEntry → Option (List TicketEntry)
  | [] => none
  | t :: rest =>
    if t.ticketId = claim.ticketId then
      if peer ∈ t.usedBy then none else some ({ t with usedBy := t.usedBy ++ [peer] } :: rest)
    else (recordUse claim peer rest).map (t :: ·)

/-- The host-to-peer deliveries, with the payload encoded. -/
inductive DeliveryFrame
  | upgrade (payload : Bytes)
  | downgrade (payload : Bytes)
  | rotate (payload : Bytes)
  | workspaceTicket (envelope : Bytes)
  deriving DecidableEq

def ACTION_GRANT : String := "capability.grant"

namespace Registry

open Artel.Fiber

variable {ed : Ed25519} (d : Daemon ed) (id : SessionId)

/-- The host arm of a send: all under one lock, the event after it. -/
def sendLocal (me : ℕ) (h : Handle) (draft : Draft) : Async Outcome := do
  let s ← lock me h
  let nowMs ← clock
  match prepareSend d s nowMs draft with
  | .error e =>
    unlock h
    return .error e
  | .ok m =>
    match ← store (.write h) (append none m) with
    | .error e =>
      unlock h
      return .error (.storage e)
    | .ok _ =>
      update h fun s => commitSend s m
      -- the subscribers are told after the lock is released
      unlock h
      emit h (.message m)
      if m.kind = .capability then return .ok (.sent m)
      else
        publish m
        return .ok (.sent m)

def mapSendRemoteResult : Except BridgeError SessionMessage → Except SessionError SessionMessage
  | .ok m => .ok m
  | .error (.hostRejected err) => .error (.hostRejected err)
  | .error .sendTimeout => .error (.internal "send_remote: timed out waiting for host ack")
  | .error (.unknownSession _) => .error (.internal "send_remote: bridge missing session topic")
  | .error (.iroh reason) => .error (.internal ("gossip: " ++ reason))
  | .error (.payloadTooLarge size max) => .error (.payloadTooLarge size max)
  | .error (.invalidAddr reason) => .error (.invalidAddr reason)

/-- A mirror's send goes to its host. Without a topic the caller can subscribe and retry. -/
def forwardRemoteSend : Async Outcome := do
  match ← once .forward fun e s => (e.ack, s) with
  | .error (.unknownSession session) => return .error (.remoteTopicMissing session)
  | other => return (mapSendRemoteResult other).map .sent

def send (me : ℕ) (draft : Draft) : Async Outcome := do
  match if draft.kind = .system then reservedSystemAction draft.action else none with
  | some reserved => return .error (.reservedAction reserved)
  | none =>
    match ← lookup with
    | none => return .error (.unknownSession id)
    | some h =>
      let s ← lock me h
      unlock h
      if draft.peer.id ∉ s.members then return .error (.notMember id)
      else if s.kind = .Remote then forwardRemoteSend
      else sendLocal d me h draft

def subscribe (me : ℕ) (since : Option Seq) : Async Outcome := do
  match ← lookup with
  | none => return .error (.unknownSession id)
  | some h =>
    let s ← lock me h
    -- the snapshot and the receiver are taken in one hold of the lock
    let start ← listen h
    unlock h
    return .ok (.subscription h (replay s since) start)

/-- A reserved action stays in the log and is not surfaced. -/
def applyInboundMirrorMessage (ed : Ed25519) (me : ℕ) (h : Handle) (m : SessionMessage) :
    Async Outcome := do
  let s ← lock me h
  match mirrorAccepts ed s m with
  | none =>
    unlock h
    return .ok .done
  | some pos =>
    match ← store (.write h) (append none m) with
    | .error _ =>
      unlock h
      return .ok .done
    | .ok _ =>
      update h fun s => mirrorInsert s pos m
      if isReserved m then
        unlock h
        return .ok .done
      else
        emit h (.message m)
        unlock h
        return .ok .done

def inbound (ed : Ed25519) (me : ℕ) (h : Handle) (m : SessionMessage) : Async Outcome := do
  waitFor (.deliver h) (fun _ s => h ∈ s.forwarders) fun _ s => ((), s)
  applyInboundMirrorMessage ed me h m

end Registry

end Artel
