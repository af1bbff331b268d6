import Artel.Protocol.Ctrl
import Artel.Session.Host
import Artel.Store.Recorded

namespace Artel

open Store

/-- One session id on a joiner, run call by call: the registry's entry and the disk. -/
structure JoinerState where
  memory : Option Session
  disk : Disk
  /-- The running forwarder: the key it checks control frames against, and its watermark. -/
  forwarder : Option (PeerId × UInt64)

namespace JoinerState

variable {ed : Ed25519} (d : Daemon ed) (id : SessionId)

/-- Membership of the joining peer; the head is what the join returns. -/
def joinMember (s : JoinerState) (session : Session) (peer : PeerId) :
    Except SessionError (Option Seq) × JoinerState :=
  let head := if session.head = Seq.ZERO then none else some session.head
  if peer ∈ session.members then (.ok head, s)
  else
    match addMember peer s.disk with
    | (.error e, disk) => (.error (.storage e), { s with disk := disk })
    | (.ok _, disk) =>
      (.ok head,
        { s with
          memory := some { session with members := insert peer session.members }
          disk := disk })

/-- The subscribe with a watermark from the mirror; a slot that is taken counts as success. -/
def subscribeInner (s : JoinerState) (session : Session) (subscribeError : Option String) :
    Option String × JoinerState :=
  match s.forwarder, subscribeError with
  | some _, _ => (none, s)
  | none, some err => (some err, s)
  | none, none => (none, { s with forwarder := some (session.host, session.hostEpoch) })

/-- A mirror is joined as it is, or made at the ticket's epoch and taken back. -/
def join (s : JoinerState) (ticket : SessionTicket) (peer : PeerId)
    (subscribeError : Option String) : Except SessionError (Option Seq) × JoinerState :=
  match s.memory with
  | some session => s.joinMember session peer
  | none =>
    if ticket.hostPeerId = d.peerId then (.error (.unknownSession id), s)
    else
      match if d.signingKey.isNone then .ok () else Signing.verifyTicketCap ed ticket.hostPeerId
        ticket.ticketId id ticket.grantedCap ticket.expiryMs ticket.hostEpoch ticket.capSig with
      | .error _ => (.error .invalidTicket, s)
      | .ok _ =>
        let session := { Session.new id ticket.hostPeerId .Remote with hostEpoch := ticket.hostEpoch }
        match create session.record s.disk with
        | (.error e, disk) => (.error (.storage e), { s with disk := disk })
        | (.ok _, disk) =>
          match subscribeInner { s with memory := some session, disk := disk } session
            subscribeError with
          | (some err, s) =>
            (.error (.internal err), { s with memory := none, disk := (delete s.disk).2 })
          | (none, s) => s.joinMember session peer

def resubscribeRemoteMirror (s : JoinerState) (subscribeError : Option String) : JoinerState :=
  match s.memory with
  | none => s
  | some session => (s.subscribeInner session subscribeError).2

def advanceHostEpochWatermark (s : JoinerState) (hostEpoch : UInt64) :
    Except SessionError Unit × JoinerState :=
  match s.memory with
  | none => (.ok (), s)
  | some session =>
    if session.kind ≠ .Remote ∨ hostEpoch ≤ session.hostEpoch then (.ok (), s)
    else
      match bumpHostEpoch hostEpoch s.disk with
      | (.error e, disk) => (.error (.storage e), { s with disk := disk })
      | (.ok _, disk) =>
        (.ok (), { s with memory := some { session with hostEpoch := hostEpoch }, disk := disk })

def epochBeacon (ed : Ed25519) (s : JoinerState) (hostEpoch : UInt64) (hostSig : SigBytes) :
    JoinerState :=
  match s.forwarder with
  | none => s
  | some (host, watermark) =>
    match Signing.verifyCtrl ed host id .beacon hostEpoch hostSig with
    | .error _ => s
    | .ok _ =>
      if hostEpoch ≤ watermark then s
      else
        match s.advanceHostEpochWatermark hostEpoch with
        | (.error _, s) => s
        | (.ok _, s) => { s with forwarder := some (host, max watermark hostEpoch) }

def hostClosedSession (s : JoinerState) : JoinerState :=
  match s.memory with
  | none => s
  | some session =>
    if session.kind ≠ .Remote then s
    else
      match delete s.disk with
      | (.error _, disk) => { s with disk := disk }
      | (.ok _, disk) => ⟨none, disk, none⟩

/-- The `SessionClosed` arm: a close of an epoch below the watermark is dropped. -/
def sessionClosed (ed : Ed25519) (s : JoinerState) (hostEpoch : UInt64) (hostSig : SigBytes) :
    JoinerState :=
  match s.forwarder with
  | none => s
  | some (host, watermark) =>
    match Signing.verifyCtrl ed host id .close hostEpoch hostSig with
    | .error _ => s
    | .ok _ => if hostEpoch < watermark then s else s.hostClosedSession

def restart (s : JoinerState) (skipped : Option Skip) : JoinerState :=
  match skipped with
  | some .beforeLog => ⟨none, s.disk, none⟩
  | some .afterLog => ⟨none, (load ed id d.signingKey.isSome s.disk).2, none⟩
  | none =>
    match load ed id d.signingKey.isSome s.disk with
    | (.error _, disk) => ⟨none, disk, none⟩
    | (.ok r, disk) => ⟨some (.fromRecord r), disk, none⟩

end JoinerState

end Artel
