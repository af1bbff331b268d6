import Artel.Registry.Lifecycle

namespace Artel

open Store

namespace Registry

open Artel.Fiber

variable {ed : Ed25519} (d : Daemon ed) (id : SessionId)

/-- The claimant drives the subscribe, and rolls back and says so if it fails. -/
def driveSubscribe (me : ℕ) (h : Handle) : Async (Except SessionError Handle) := do
  -- the watermark is seeded from the mirror, under its lock
  let _ ← lock me h
  unlock h
  match ← joinSession h with
  | some err =>
    rollbackRemoteMirror h
    finish h false
    return .error (.internal err)
  | none =>
    finish h true
    return .ok h

def materialiseRemoteSession (me : ℕ) (ticket : SessionTicket) :
    Async (Except SessionError Handle) := do
  match if d.signingKey.isNone then .ok () else Signing.verifyTicketCap ed ticket.hostPeerId
    ticket.ticketId id ticket.grantedCap ticket.expiryMs ticket.hostEpoch ticket.capSig with
  | .error _ => return .error .invalidTicket
  | .ok _ =>
    match ← claimRemoteMirror id ticket.hostPeerId ticket.hostEpoch with
    | .error e => return .error e
    | .ok (.adopted h none) => return .ok h
    | .ok (.adopted h (some outcome)) => awaitClaimantOutcome h outcome
    | .ok (.fresh h) => driveSubscribe me h

def joinMember (me : ℕ) (h : Handle) (peer : PeerInfo) : Async Outcome := do
  let s ← lock me h
  let head := if s.head = Seq.ZERO then none else some s.head
  if peer.id ∈ s.members then
    unlock h
    return .ok (.joined h head)
  else
    match ← store (.write h) (addMember peer.id) with
    | .error e =>
      unlock h
      return .error (.storage e)
    | .ok _ =>
      update h fun s => { s with members := Insert.insert peer.id s.members }
      emit h (.peerJoined peer)
      unlock h
      return .ok (.joined h head)

def join (me : ℕ) (ticket : SessionTicket) (peer : PeerInfo) : Async Outcome := do
  match ← lookupAs .joinLookup with
  -- whether its claim is still in flight is not looked at here
  | some h => joinMember me h peer
  | none =>
    if ticket.hostPeerId = d.peerId then return .error (.unknownSession id)
    else
      match ← materialiseRemoteSession d id me ticket with
      | .error e => return .error e
      | .ok h => joinMember me h peer

/-- The resume path: ledger, then epoch, then memory, under one hold of the lock. -/
def hostResume (me : ℕ) (call : HostCall) (h : Handle) : Async Outcome := do
  let s ← lock me h
  if s.host ≠ call.peer ∨ s.kind ≠ .Local then
    unlock h
    return .error (.sessionConflict id)
  else
    match ← store (.write h) (putTickets (s.tickets ++ [ledgerEntry call])) with
    | .error e =>
      unlock h
      return .error (.storage e)
    | .ok _ =>
      match ← store (.write h) (bumpHostEpoch (nextEpoch s.hostEpoch)) with
      | .error e =>
        unlock h
        return .error (.storage e)
      | .ok _ =>
        update h fun s => resumedSession s call
        unlock h
        let _ ← hostSession h
        return .ok (.ticket (mintTicket d id call (nextEpoch s.hostEpoch)))

/-- The create path, with the map's write lock held up to the insert. -/
def hostCreate (call : HostCall) : Async Outcome := do
  match ← store .floor epochFloor with
  | .error e =>
    releaseMap
    return .error (.storage e)
  | .ok floor =>
    match ← store .create (create (createdSession id call floor).record) with
    | .error e =>
      releaseMap
      return .error (.storage e)
    | .ok _ =>
      let h ← insert (createdSession id call floor)
      let _ ← hostSession h
      return .ok (.ticket (mintTicket d id call floor))

/-- One pass of the loop; a create that lost its race goes `again`. -/
def hostPass (me : ℕ) (call : HostCall) (again : Async Outcome) : Async Outcome := do
  match ← lookup with
  | some h => hostResume d id me call h
  | none =>
    match ← writeMap me with
    | none => hostCreate d id call
    | some _ =>
      releaseMap
      again

/-- The loop, unrolled; after the last pass the call waits for ever. -/
def host (me : ℕ) (call : HostCall) : ℕ → Async Outcome
  | 0 => waitFor .lookup (fun _ _ => false) fun _ s => (.error (.sessionConflict id), s)
  | passes + 1 => hostPass d id me call (host me call passes)

def refuseDelivery (s : Session) (sender : PeerId) (what : String) : Option SessionError :=
  if s.kind ≠ .Remote then some (.internal ("host sessions cannot receive " ++ what))
  else if sender ≠ s.host then some (.internal (what ++ " sender is not the session host"))
  else none

/-- The synthetic message goes to the subscribers only, after the lock is released. -/
def emitSynthetic (me : ℕ) (sender : PeerId) (what action : String) (payload : Bytes) :
    Async Outcome := do
  match ← lookup with
  | none => return .error (.unknownSession id)
  | some h =>
    let s ← lock me h
    unlock h
    match refuseDelivery s sender what with
    | some e => return .error e
    | none =>
      emit h (.message (syntheticSystemMessage s.host action payload))
      return .ok .done

def emitUpgrade (me : ℕ) (sender : PeerId) (payload : Bytes) : Async Outcome :=
  emitSynthetic id me sender "upgrades" UPGRADE_ACTION payload

def emitDowngrade (me : ℕ) (sender : PeerId) (payload : Bytes) : Async Outcome :=
  emitSynthetic id me sender "downgrades" DOWNGRADE_ACTION payload

def emitRotate (me : ℕ) (sender : PeerId) (payload : Bytes) : Async Outcome :=
  emitSynthetic id me sender "rotations" ROTATE_ACTION payload

/-- Unlike its siblings this delivery is stored, so that a later subscribe replays it. -/
def emitWorkspaceTicket (me : ℕ) (sender : PeerId) (envelope : Bytes) : Async Outcome := do
  match ← lookup with
  | none => return .error (.unknownSession id)
  | some h =>
    let s ← lock me h
    match refuseDelivery s sender "workspace tickets" with
    | some e =>
      unlock h
      return .error e
    | none =>
      if s.workspaceTicket = some envelope then
        unlock h
        return .ok .done
      else
        match ← store (.write h) (putWorkspaceTicket envelope) with
        | .error e =>
          unlock h
          return .error (.storage e)
        | .ok _ =>
          update h fun s => { s with workspaceTicket := some envelope }
          unlock h
          emit h (.message (syntheticTicketMessage s.host envelope))
          return .ok .done

end Registry

/-- A call on the registry, by an IPC client or by the bridge. -/
inductive Call
  | host (call : HostCall) (passes : ℕ)
  | join (ticket : SessionTicket) (peer : PeerInfo)
  | leave (peer : PeerId)
  | hostClosedSession
  | advanceHostEpochWatermark (hostEpoch : UInt64)
  | ensureMember (peer : PeerInfo) (claim : Option CapClaim)
  | send (draft : Draft)
  | subscribe (since : Option Seq)
  | inbound (mirror : Handle) (m : SessionMessage)
  | deliver (sender : PeerId) (frame : DeliveryFrame)
  deriving DecidableEq

def Call.body {ed : Ed25519} (d : Daemon ed) (id : SessionId) (me : ℕ) : Call → Async Outcome
  | .host call passes => Registry.host d id me call passes
  | .join ticket peer => Registry.join d id me ticket peer
  | .leave peer => Registry.leave id me peer
  | .hostClosedSession => Registry.hostClosedSession me
  | .advanceHostEpochWatermark hostEpoch => Registry.advanceHostEpochWatermark me hostEpoch
  | .ensureMember peer claim => Registry.ensureMember d id me peer claim
  | .send draft => Registry.send d id me draft
  | .subscribe since => Registry.subscribe id me since
  | .inbound mirror m => Registry.inbound ed me mirror m
  | .deliver sender (.upgrade payload) => Registry.emitUpgrade id me sender payload
  | .deliver sender (.downgrade payload) => Registry.emitDowngrade id me sender payload
  | .deliver sender (.rotate payload) => Registry.emitRotate id me sender payload
  | .deliver sender (.workspaceTicket envelope) =>
    Registry.emitWorkspaceTicket id me sender envelope

def joinedMirror : Outcome → Option Handle
  | .ok (.joined h _) => some h
  | _ => none

def subscribedReplay : Outcome → List SessionMessage
  | .ok (.subscription _ replay _) => replay
  | _ => []

/-- The state after a history of arrivals and actions, in whatever order they interleave. -/
abbrev runCalls {ed : Ed25519} (d : Daemon ed) (id : SessionId) (s : World)
    (ms : List (Move Call Env)) : Pool Call World Env Label Outcome :=
  Pool.run (Call.body d id) ⟨s, []⟩ ms

/-- Every call meets `A`, and every action `C` in the state before it. -/
abbrev CallsMeet {ed : Ed25519} (d : Daemon ed) (id : SessionId) (s : World) (A : Call → Prop)
    (C : Label → Env → World → Prop) (ms : List (Move Call Env)) : Prop :=
  Along (Pool.move (Call.body d id)) (Pool.Meets A C) ⟨s, []⟩ ms

namespace Sample

def calm : Env := ⟨0, none, none, .error .sendTimeout⟩

def stormy : Env := ⟨0, none, some "timed out", .error .sendTimeout⟩

def noDisk : Disk := ⟨none, none⟩

def blank : Session := .new session (peer 0) .Local

def remoteTicket : SessionTicket :=
  mintTicket (⟨peer 1, some (peer 1)⟩ : Daemon .checksum) session call 0

def steps (i n : ℕ) (e : Env) : List (Move Call Env) := List.replicate n (.step i e)

end Sample

end Artel
