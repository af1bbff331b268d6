import Artel.Registry.Authority
import Artel.Registry.Fanout
import Artel.Session.Caps

namespace Artel.Sequencer

open Store

def tier (claim : Option CapClaim) : Capability := claim.elim .readWrite CapClaim.grantedCap

/-- Its peer is stored, announced, and the send has looked at the session. -/
inductive Stage
  | admitted
  | announced
  | checked
  deriving DecidableEq

/-- A grant that the call which admitted the peer has still to send. -/
structure Owed where
  call : ℕ
  peer : PeerId
  cap : Capability
  stage : Stage
  deriving DecidableEq

/-- An admission keeps what the peer held before it, and the grants outstanding. -/
inductive Fact
  | admitted (peer : PeerId) (cap : Capability) (held stored : Option Capability) (owed : List Owed)
  /-- A client's message reached the store. -/
  | written (draft : Draft)
  /-- A message came into the log: a client's, or the grant of an admission. -/
  | committed (m : SessionMessage) (client : Bool) (owed : List Owed)
  deriving DecidableEq

structure Trace where
  facts : List Fact
  owed : List Owed
  deriving DecidableEq

variable {ed : Ed25519} (d : Daemon ed) (id : SessionId)

def storedLog (disk : Disk) : List SessionMessage :=
  (readLog ed id d.signingKey.isSome disk.logBytes).1

/-- It is over with the second release after the announcement. -/
def Stage.released : Stage → Option Stage
  | .admitted => some .admitted
  | .announced => some .checked
  | .checked => none

def Trace.advance (t : Trace) (i : ℕ) (next : Stage → Option Stage) : Trace :=
  { t with owed := t.owed.filterMap fun x =>
      if x.call = i then (next x.stage).map fun stage => { x with stage := stage } else some x }

/-- The message that an update of the session has put at the end of its log. -/
def newMessage (old new : Session) : Option SessionMessage :=
  if old.log.length < new.log.length then new.log.getLast? else none

def Trace.commit (t : Trace) (client : Bool) : Option SessionMessage → Trace
  | none => t
  | some m => { t with facts := t.facts ++ [.committed m client t.owed] }

/-- The notes of an admission: its first write is the one that stores the member. -/
def noteAdmission (i : ℕ) (peer : PeerId) (cap : Capability) (e : Env) (s s' : World) (t : Trace) :
    Label → Trace
  | .write h =>
    if t.owed.any fun x => x.call = i then t
    else if e.fault.isNone ∧ (addMember peer s.disk).1 = .ok () then
      let session := (s.cells h).session
      { facts := t.facts ++ [.admitted peer cap (session.caps peer)
          (projectCaps session.host (storedLog d id s.disk) peer) t.owed]
        owed := t.owed ++ [⟨i, peer, cap, .admitted⟩] }
    else t
  | .update h => t.commit false (newMessage (s.cells h).session (s'.cells h).session)
  | .emit _ (.peerJoined _) => t.advance i fun _ => some .announced
  | .unlock _ => t.advance i Stage.released
  | _ => t

def note (i : ℕ) : HostedCall → Label → Env → World → World → Trace → Trace
  | .plain (.send draft), .write _, _, _, _, t => { t with facts := t.facts ++ [.written draft] }
  | .plain (.send _), .update h, _, s, s', t =>
    t.commit true (newMessage (s.cells h).session (s'.cells h).session)
  | .plain (.ensureMember peer claim), l, e, s, s', t =>
    noteAdmission d id i peer.id (tier claim) e s s' t l
  | _, _, _, _, _, t => t

/-- The grant that an admission sends in the host's name. -/
def grantDraft (peer : PeerId) (cap : Capability) : Draft where
  peer := ⟨d.peerId, "host"⟩
  kind := .capability
  action := ACTION_GRANT
  payload := (CapabilityAction.grant peer cap).encode
  authoring := .Local

/-- A message that is stored and not yet committed; `grant` if an admission sent it. -/
structure Writing where
  draft : Draft
  grant : Option (PeerId × Capability)
  message : SessionMessage

/-- One session as its lock's holders see it, one after the other. -/
structure State where
  session : Session
  disk : Disk
  writing : Option Writing
  trace : Trace

/-- A client's message, from a draft in `A`, or an outstanding grant. -/
inductive Speaks (A : Draft → Prop) (owed : List Owed) : Draft → Option (PeerId × Capability) → Prop
  | client {draft : Draft} (hdraft : A draft) : Speaks A owed draft none
  | grant {x : Owed} (hx : x ∈ owed) :
    Speaks A owed (grantDraft d x.peer x.cap) (some (x.peer, x.cap))

def Trace.write (t : Trace) (draft : Draft) : Option (PeerId × Capability) → Trace
  | none => { t with facts := t.facts ++ [.written draft] }
  | some _ => t

/-- What a hold of the lock can do; `F` says what a failed store may leave. -/
inductive Step (A : Draft → Prop) (F : Disk → Disk → Prop) : State → State → Prop
  | append {c : State} {nowMs : UInt64} {draft : Draft} {grant : Option (PeerId × Capability)}
      {m : SessionMessage} {disk : Disk} (hfree : c.writing = none)
      (hprep : prepareSend d c.session nowMs draft = .ok m)
      (hspeaks : Speaks d A c.trace.owed draft grant)
      (hok : append none m c.disk = (.ok (), disk)) :
      Step A F c { c with
        disk := disk
        writing := some ⟨draft, grant, m⟩
        trace := c.trace.write draft grant }
  | refused {c : State} {nowMs : UInt64} {draft : Draft} {grant : Option (PeerId × Capability)}
      {m : SessionMessage} {disk : Disk} (hfree : c.writing = none)
      (hprep : prepareSend d c.session nowMs draft = .ok m)
      (hspeaks : Speaks d A c.trace.owed draft grant)
      (herr : F c.disk disk ∨ ∃ e, append none m c.disk = (.error e, disk)) :
      Step A F c { c with disk := disk, trace := c.trace.write draft grant }
  | commit {c : State} {w : Writing} (hw : c.writing = some w) :
      Step A F c { c with
        session := commitSend c.session w.message
        writing := none
        trace := c.trace.commit w.grant.isNone (some w.message) }
  /-- Members and ledger in memory; the host is never removed. -/
  | amend {c : State} (members : Finset PeerId) (tickets : List TicketEntry)
      (hfree : c.writing = none)
      (hhost : c.session.host ∈ c.session.members → c.session.host ∈ members) :
      Step A F c { c with session := { c.session with members := members, tickets := tickets } }
  | storeMembers {c : State} (f : Finset PeerId → Finset PeerId) :
      Step A F c { c with disk := (updateMembers f c.disk).2 }
  | storeTickets {c : State} (tickets : List TicketEntry) :
      Step A F c { c with disk := (putTickets tickets c.disk).2 }
  | fail {c : State} {disk : Disk} (hfail : F c.disk disk) : Step A F c { c with disk := disk }
  | admission {c : State} {disk : Disk} (i : ℕ) (peer : PeerId) (cap : Capability)
      (hfree : c.writing = none) (hnew : peer ∉ c.session.members)
      (hok : addMember peer c.disk = (.ok (), disk)) :
      Step A F c { c with
        disk := disk
        trace :=
          { facts := c.trace.facts ++ [.admitted peer cap (c.session.caps peer)
              (projectCaps c.session.host (storedLog d id c.disk) peer) c.trace.owed]
            owed := c.trace.owed ++ [⟨i, peer, cap, .admitted⟩] } }
  | advance {c : State} (i : ℕ) (next : Stage → Option Stage) :
      Step A F c { c with trace := c.trace.advance i next }

/-- After a crash: what the store gives back, and nothing in flight. -/
def restarted (c : State) (r : SessionRecord) (disk : Disk) : State where
  session := .fromRecord r
  disk := disk
  writing := none
  trace := { c.trace with owed := [] }

def created (call : HostCall) (floor : UInt64) (disk : Disk) : World :=
  Fanout.hosting (createdSession id call floor) (create (createdSession id call floor).record disk).2

end Artel.Sequencer
