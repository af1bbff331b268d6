import Artel.Registry.Authority
import Artel.Session.Keyed
import Artel.Session.Recovery

namespace Artel.Crash

open Store Medium.Program

/-- The registry's entry for one id, and the messages sent since. -/
structure Live where
  memory : Option Session
  acked : List SessionMessage

inductive Op
  | host (call : HostCall)
  | join (peer : PeerId)
  | issueTicket (grantedCap : Capability) (expiryMs : UInt64) (mint : Mint)
  | revokeTicket (ticket : TicketId)
  | send (nowMs : UInt64) (draft : Draft)
  | ensureMember (peer : PeerInfo) (claim : Option CapClaim) (nowMs grantMs : UInt64)
  | removeMember (peer : PeerId)
  | leave (peer : PeerId)
  | publishWorkspaceTicket (envelope : Bytes)

abbrev Durable := medium.Program Live

/-- Store before memory: what follows happens only if the store took the write. -/
def storeThen (s : Live) (t : medium.Program (Except IoError Unit)) (next : Durable) : Durable := do
  match ← t with
  | .error _ => return s
  | .ok _ => next

def withLocal (s : Live) (f : Session → Durable) : Durable :=
  match s.memory with
  | none => return s
  | some session => if session.kind ≠ .Local then return s else f session

variable {ed : Ed25519} (d : Daemon ed) (id : SessionId)

def create (s : Live) (call : HostCall) : Durable := do
  match ← Programs.epochFloor with
  | .error _ => return s
  | .ok floor =>
    let session := createdSession id call floor
    storeThen s (Programs.create session.record) (return ⟨some session, []⟩)

def resume (s : Live) (session : Session) (call : HostCall) : Durable :=
  if session.host ≠ call.peer ∨ session.kind ≠ .Local then return s
  else
    storeThen s (Programs.putTickets (session.tickets ++ [ledgerEntry call]))
      (storeThen s (Programs.bumpHostEpoch (nextEpoch session.hostEpoch))
        (return { s with memory := some (resumedSession session call) }))

def host (s : Live) (call : HostCall) : Durable :=
  match s.memory with
  | some session => resume s session call
  | none => create id s call

def join (s : Live) (peer : PeerId) : Durable :=
  match s.memory with
  | none => return s
  | some session =>
    if peer ∈ session.members then return s
    else
      storeThen s (Programs.addMember peer)
        (return { s with memory := some { session with members := insert peer session.members } })

def issueTicket (s : Live) (grantedCap : Capability) (expiryMs : UInt64) (mint : Mint) : Durable :=
  withLocal s fun session =>
    let tickets := session.tickets ++ [ledgerEntry ⟨d.peerId, grantedCap, expiryMs, mint⟩]
    storeThen s (Programs.putTickets tickets)
      (return { s with memory := some { session with tickets := tickets } })

def revokeTicket (s : Live) (ticket : TicketId) : Durable :=
  withLocal s fun session =>
    match session.tickets.find? fun t => t.ticketId = ticket with
    | none => return s
    | some entry =>
      if entry.status = .revoked then return s
      else
        let tickets := Registry.revokeEntry ticket session.tickets
        storeThen s (Programs.putTickets tickets)
          (return { s with memory := some { session with tickets := tickets } })

def sendPrepared (s : Live) (session : Session) (nowMs : UInt64) (draft : Draft) : Durable :=
  match prepareSend d session nowMs draft with
  | .error _ => return s
  | .ok m => storeThen s (Programs.append m) (return ⟨some (commitSend session m), s.acked ++ [m]⟩)

def send (s : Live) (nowMs : UInt64) (draft : Draft) : Durable :=
  if draft.kind = .system ∧ (reservedSystemAction draft.action).isSome then return s
  else withLocal s fun session => sendPrepared d s session nowMs draft

def grantDraft (peer : PeerId) (cap : Capability) : Draft where
  peer := ⟨d.peerId, "host"⟩
  kind := .capability
  action := ACTION_GRANT
  payload := (CapabilityAction.grant peer cap).encode
  authoring := .Local

/-- The advisory note of who used a ticket stands in memory whatever the store says. -/
def noteUse (session : Session) (tickets : Option (List TicketEntry)) : medium.Program Session := do
  match tickets with
  | none => return session
  | some tickets =>
    let _ ← Programs.putTickets tickets
    return { session with tickets := tickets }

/-- Member, used ticket and grant are three writes. -/
def admitPeer (s : Live) (session : Session) (peer : PeerInfo) (claim : Option CapClaim)
    (grantMs : UInt64) : Durable :=
  storeThen s (Programs.addMember peer.id) do
    let admitted ← noteUse { session with members := insert peer.id session.members }
      (claim.bind fun c => recordUse c peer.id session.tickets)
    sendPrepared d { s with memory := some admitted } admitted grantMs
      (grantDraft d peer.id (claim.elim .readWrite CapClaim.grantedCap))

def ensureMember (s : Live) (peer : PeerInfo) (claim : Option CapClaim) (nowMs grantMs : UInt64) :
    Durable :=
  match claim.elim (.ok ()) (Registry.verifyClaim d id nowMs) with
  | .error _ => return s
  | .ok _ =>
    withLocal s fun session =>
      if claim.any fun c => !ticketAdmissible session c then return s
      else if peer.id ∈ session.members then return s
      else admitPeer d s session peer claim grantMs

def removeMember (s : Live) (peer : PeerId) : Durable :=
  withLocal s fun session =>
    if peer = session.host ∨ peer ∉ session.members then return s
    else
      storeThen s (Programs.removeMember peer)
        (return { s with memory := some { session with members := session.members.erase peer } })

def leave (s : Live) (peer : PeerId) : Durable :=
  match s.memory with
  | none => return s
  | some session =>
    if peer ∉ session.members then return s
    else if peer = session.host ∨ session.kind = .Remote then
      storeThen s Programs.delete (return ⟨none, []⟩)
    else
      storeThen s (Programs.removeMember peer)
        (return { s with memory := some { session with members := session.members.erase peer } })

def publishWorkspaceTicket (s : Live) (envelope : Bytes) : Durable :=
  withLocal s fun session =>
    storeThen s (Programs.putWorkspaceTicket envelope)
      (return { s with memory := some { session with workspaceTicket := some envelope } })

def perform (s : Live) : Op → Durable
  | .host call => host id s call
  | .join peer => join s peer
  | .issueTicket grantedCap expiryMs mint => issueTicket d s grantedCap expiryMs mint
  | .revokeTicket ticket => revokeTicket s ticket
  | .send nowMs draft => send d s nowMs draft
  | .ensureMember peer claim nowMs grantMs => ensureMember d id s peer claim nowMs grantMs
  | .removeMember peer => removeMember s peer
  | .leave peer => leave s peer
  | .publishWorkspaceTicket envelope => publishWorkspaceTicket s envelope

abbrev State := Live × Disk

def step (s : State) (o : Op) : State :=
  let done := perform d id s.1 o s.2
  (done.1, medium.applyAll done.2 s.2)

def run (floor : Option UInt64) (ops : List Op) : State :=
  ops.foldl (step d id) (⟨none, []⟩, ⟨none, floor⟩)

def Allowed : Op → Prop
  | .send _ draft => draft.Stamped d
  | _ => True

instance : DecidablePred (Allowed d)
  | .send _ draft => inferInstanceAs (Decidable (draft.Stamped d))
  | .host _ | .join _ | .issueTicket _ _ _ | .revokeTicket _ | .ensureMember _ _ _ _
  | .removeMember _ | .leave _ | .publishWorkspaceTicket _ => isTrue trivial

end Artel.Crash
