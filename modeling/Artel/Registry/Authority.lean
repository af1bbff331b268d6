import Artel.Lib.History
import Artel.Registry.Registry

namespace Artel

open Store

/-- What a call of the host's operator can be refused with. -/
inductive AuthorityError
  | session (err : SessionError)
  | unknownTicket (ticket : TicketId)
  deriving DecidableEq

abbrev Answer := Except AuthorityError Reply

def Outcome.answer (o : Outcome) : Answer := o.mapError .session

namespace Registry

open Artel.Fiber

variable {ed : Ed25519} (d : Daemon ed) (id : SessionId)

/-- The gate of the host's own operations: the lock of a session that is not a mirror. -/
def lockLocalSession (me : ℕ) : Async (Except SessionError (Handle × Session)) := do
  match ← lookup with
  | none => return .error (.unknownSession id)
  | some h =>
    let s ← lock me h
    if s.kind ≠ .Local then
      unlock h
      return .error .notHost
    else return .ok (h, s)

/-- Host-authority removal of a member; removing the host or a stranger does nothing. -/
def removeMember (me : ℕ) (peer : PeerId) : Async Answer := do
  match ← lockLocalSession id me with
  | .error e => return .error (.session e)
  | .ok (h, s) =>
    if peer = s.host ∨ peer ∉ s.members then
      unlock h
      return .ok .done
    else
      match ← store (.write h) (Store.removeMember peer) with
      | .error e =>
        unlock h
        return .error (.session (.storage e))
      | .ok _ =>
        update h fun s => { s with members := s.members.erase peer }
        emit h (.peerLeft peer)
        unlock h
        return .ok .done

/-- Another ticket for a session that is already hosted, at its current epoch. -/
def issueTicket (me : ℕ) (grantedCap : Capability) (expiryMs : UInt64) (mint : Mint) :
    Async Answer := do
  match ← lockLocalSession id me with
  | .error e => return .error (.session e)
  | .ok (h, s) =>
    let call : HostCall := ⟨d.peerId, grantedCap, expiryMs, mint⟩
    let tickets := s.tickets ++ [ledgerEntry call]
    match ← store (.write h) (putTickets tickets) with
    | .error e =>
      unlock h
      return .error (.session (.storage e))
    | .ok _ =>
      update h fun s => { s with tickets := tickets }
      unlock h
      return .ok (.ticket (mintTicket d id call s.hostEpoch))

def revokeEntry (ticket : TicketId) : List TicketEntry → List TicketEntry
  | [] => []
  | t :: rest =>
    if t.ticketId = ticket then { t with status := .revoked } :: rest
    else t :: revokeEntry ticket rest

/-- A revoked entry is left alone, and an id never issued is an error. -/
def revokeTicket (me : ℕ) (ticket : TicketId) : Async Answer := do
  match ← lockLocalSession id me with
  | .error e => return .error (.session e)
  | .ok (h, s) =>
    match s.tickets.find? fun t => t.ticketId = ticket with
    | none =>
      unlock h
      return .error (.unknownTicket ticket)
    | some entry =>
      if entry.status = .revoked then
        unlock h
        return .ok .done
      else
        let tickets := revokeEntry ticket s.tickets
        match ← store (.write h) (putTickets tickets) with
        | .error e =>
          unlock h
          return .error (.session (.storage e))
        | .ok _ =>
          update h fun s => { s with tickets := tickets }
          unlock h
          return .ok .done

/-- `Registry::load`: what fails to load or to verify is skipped. -/
def load (blank : Session) (disk : Disk) : World :=
  match Store.load ed id d.signingKey.isSome disk with
  | (.error _, disk) => World.empty blank disk
  | (.ok r, disk) => (World.empty blank disk).insert (.fromRecord r)

end Registry

/-- A call on the registry of a host: one of `Call`, or one of its operator's own. -/
inductive HostedCall
  | plain (call : Call)
  | removeMember (peer : PeerId)
  | issueTicket (grantedCap : Capability) (expiryMs : UInt64) (mint : Mint)
  | revokeTicket (ticket : TicketId)
  deriving DecidableEq

def HostedCall.body {ed : Ed25519} (d : Daemon ed) (id : SessionId) (me : ℕ) :
    HostedCall → Async Answer
  | .plain call => (call.body d id me).bind fun o => .ret (Outcome.answer o)
  | .removeMember peer => Registry.removeMember id me peer
  | .issueTicket grantedCap expiryMs mint => Registry.issueTicket d id me grantedCap expiryMs mint
  | .revokeTicket ticket => Registry.revokeTicket id me ticket

/-- What happens to a host: its calls, and crashes that leave some disk behind. -/
abbrev HostedEvent := Happening HostedCall Env Disk

abbrev runHosted {ed : Ed25519} (d : Daemon ed) (id : SessionId) (blank : Session) (s : World)
    (hs : List HostedEvent) : Pool HostedCall World Env Label Answer :=
  Pool.history (HostedCall.body d id) (fun disk _ => Registry.load d id blank disk) ⟨s, []⟩ hs

namespace Sample

def acts (i n : ℕ) : List HostedEvent := List.replicate n (.move (.step i calm))

end Sample

end Artel
