import Artel.Registry.Calls

namespace Artel

open Store

/-- A slot of its own, or another's mirror with the claim in flight. -/
inductive MirrorClaim
  | fresh (h : Handle)
  | adopted (h : Handle) (outcome : Option Handle)

namespace Registry

open Artel.Fiber

variable {ed : Ed25519} (d : Daemon ed) (id : SessionId)

/-- Map entry and slot go after the lock is released. -/
def leave (me : ℕ) (peer : PeerId) : Async Outcome := do
  match ← lookup with
  | none => return .error (.unknownSession id)
  | some h =>
    let s ← lock me h
    if peer ∉ s.members then
      unlock h
      return .error (.notMember id)
    else
      let dropSession := peer = s.host ∨ s.kind = .Remote
      match ← store (.write h) (if dropSession then delete else removeMember peer) with
      | .error e =>
        unlock h
        return .error (.storage e)
      | .ok _ =>
        update h fun s => { s with members := s.members.erase peer }
        emit h (if dropSession then .sessionClosed else .peerLeft peer)
        unlock h
        if dropSession then
          -- from here on the id can be hosted again, while its slot is still taken
          unpublishAs (.unpublish h)
          forget h
          return .ok .done
        else return .ok .done

def hostClosedSession (me : ℕ) : Async Outcome := do
  match ← lookup with
  | none => return .ok .done
  | some h =>
    let s ← lock me h
    if s.kind ≠ .Remote then
      unlock h
      return .ok .done
    else
      match ← store (.write h) delete with
      | .error e =>
        unlock h
        return .error (.storage e)
      | .ok _ =>
        unlock h
        unpublishAs (.unpublish h)
        emit h .sessionClosed
        forget h
        return .ok .done

def advanceHostEpochWatermark (me : ℕ) (hostEpoch : UInt64) : Async Outcome := do
  match ← lookup with
  | none => return .ok .done
  | some h =>
    let s ← lock me h
    if s.kind ≠ .Remote ∨ hostEpoch ≤ s.hostEpoch then
      unlock h
      return .ok .done
    else
      match ← store (.write h) (bumpHostEpoch hostEpoch) with
      | .error e =>
        unlock h
        return .error (.storage e)
      | .ok _ =>
        update h fun s => { s with hostEpoch := hostEpoch }
        unlock h
        return .ok .done

/-- Expiry and the ticket's own signature, before anything is looked up. -/
def verifyClaim (nowMs : UInt64) (claim : CapClaim) : Except SessionError Unit :=
  if claim.expiryMs ≠ 0 ∧ claim.expiryMs ≤ nowMs then .error .ticketExpired
  else if d.signingKey.isNone then .ok ()
  else
    match Signing.verifyTicketCap ed d.peerId claim.ticketId id claim.grantedCap claim.expiryMs
      claim.hostEpoch claim.capSig with
    | .error e => .error (.invalidCapClaim (verifyReason e))
    | .ok _ => .ok ()

/-- The host's own grant for a peer it has just admitted; its failure is only logged. -/
def autoGrantOnJoin (me : ℕ) (peer : PeerId) (cap : Capability) : Async Outcome :=
  send d id me
    { peer := ⟨d.peerId, "host"⟩
      kind := .capability
      action := ACTION_GRANT
      payload := (CapabilityAction.grant peer cap).encode
      authoring := .Local }

/-- The advisory note of who used a ticket; its failure is only logged. -/
def noteUse (h : Handle) (tickets : Option (List TicketEntry)) : Async Unit := do
  match tickets with
  | none => return ()
  | some tickets =>
    update h fun s => { s with tickets := tickets }
    let _ ← store (.write h) (putTickets tickets)
    return ()

def ensureMember (me : ℕ) (peer : PeerInfo) (claim : Option CapClaim) : Async Outcome := do
  let nowMs ← clock
  match claim.elim (.ok ()) (verifyClaim d id nowMs) with
  | .error e => return .error e
  | .ok _ =>
    match ← lookup with
    | none => return .error (.unknownSession id)
    | some h =>
      let s ← lock me h
      if claim.any fun c => !ticketAdmissible s c then
        unlock h
        return .error .ticketNotAdmissible
      else if peer.id ∈ s.members then
        unlock h
        return .ok .done
      else
        match ← store (.write h) (addMember peer.id) with
        | .error e =>
          unlock h
          return .error (.storage e)
        | .ok _ =>
          update h fun s => { s with members := Insert.insert peer.id s.members }
          noteUse h (if s.kind = .Local then claim.bind fun c => recordUse c peer.id s.tickets
            else none)
          unlock h
          emit h (.peerJoined peer)
          if s.kind = .Local then
            let _ ← autoGrantOnJoin d id me peer.id (claim.elim .readWrite CapClaim.grantedCap)
            return .ok .done
          else return .ok .done

/-- The marker of an in-flight claim is looked up after the mirror itself. -/
def adoptClaim (h : Handle) : Async MirrorClaim :=
  once (.adopt h) fun _ s => (.adopted h s.pendingRemoteJoins, s)

/-- The existence check and the insert in one hold of the write lock, with the marker. -/
def claimSlot (session : Session) : Async (Handle ⊕ Handle) :=
  waitFor .claim (fun _ s => s.writer.isNone) fun _ s =>
    match s.sessions with
    | some h => (.inl h, s)
    | none =>
      (.inr s.nextHandle,
        { s.insert session with
          pendingRemoteJoins := some s.nextHandle
          watches := Function.update s.watches s.nextHandle none })

/-- The record is written before the map is locked. -/
def claimRemoteMirror (host : PeerId) (hostEpoch : UInt64) :
    Async (Except SessionError MirrorClaim) := do
  let session := { Session.new id host .Remote with hostEpoch := hostEpoch }
  match ← lookup with
  | some h =>
    let claim ← adoptClaim h
    return .ok claim
  | none =>
    match ← store .create (create session.record) with
    | .error e => return .error (.storage e)
    | .ok _ =>
      -- another claim may have been made since the lookup
      match ← claimSlot session with
      | .inl h =>
        let claim ← adoptClaim h
        return .ok claim
      | .inr h => return .ok (.fresh h)

/-- The guard's `finish`: the outcome is posted, then the marker of the id is removed. -/
def finish (h : Handle) (ok : Bool) : Async Unit := do
  once (.post h) fun _ s => ((), { s with watches := Function.update s.watches h (some ok) })
  once (.clearPending h) fun _ s => ((), { s with pendingRemoteJoins := none })

def rollbackRemoteMirror (h : Handle) : Async Unit := do
  unpublishAs (.rollback h)
  let _ ← store (.rollbackDelete h) delete
  return ()

def awaitClaimantOutcome (h outcome : Handle) : Async (Except SessionError Handle) :=
  waitFor (.outcome outcome) (fun _ s => (s.watches outcome).isSome) fun _ s =>
    (if s.watches outcome = some true then .ok h
      else .error (.internal "concurrent join failed to subscribe; retry"), s)

end Registry

end Artel
