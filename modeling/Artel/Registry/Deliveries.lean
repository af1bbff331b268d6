import Artel.Lib.Spares
import Artel.Registry.Authority

namespace Artel

open Store

def WORKSPACE_TICKET_DELIVERY_RETRIES : ℕ := 5

/-- A spawned delivery: its session, the peer and the envelope. -/
structure Delivery where
  handle : Handle
  target : PeerId
  envelope : Bytes
  deriving DecidableEq

inductive PostFact
  | published (h : Handle) (envelope : Bytes)
  | delivered (h : Handle) (target : PeerId) (envelope : Bytes)
  deriving DecidableEq

structure Post where
  /-- The call that holds a peer's lane of a session. -/
  lanes : Handle → PeerId → Option ℕ
  /-- The deliveries that no task has started yet. -/
  spawned : List Delivery
  /-- The kind and the envelope that an admission has read under the session's lock. -/
  snapshots : ℕ → Option (SessionKind × Option Bytes)
  facts : List PostFact

def deliveryStillCurrent (members : Finset PeerId) (currentEnvelope : Option Bytes) (target : PeerId)
    (delivering : Bytes) : Bool :=
  target ∈ members && currentEnvelope = some delivering

namespace Registry

open Artel.Fiber

variable {ed : Ed25519} (d : Daemon ed) (id : SessionId)

/-- The envelope is stored under one lock, and delivered to the members of then. -/
def storeWorkspaceTicket (me : ℕ) (envelope : Bytes) : Async (Except SessionError (Finset PeerId)) := do
  match ← lockLocalSession id me with
  | .error e => return .error e
  | .ok (h, s) =>
    match ← store (.write h) (putWorkspaceTicket envelope) with
    | .error e =>
      unlock h
      return .error (.storage e)
    | .ok _ =>
      update h fun s => { s with workspaceTicket := some envelope }
      unlock h
      return .ok s.members

/-- Session and lane are picked up here, and the delivery runs on its own. -/
def deliverWorkspaceTicketTo (me : ℕ) (target : PeerId) (envelope : Bytes) :
    Fiber (World × Post) Env Label Unit := do
  if target = d.peerId then return ()
  else
    match ← beside lookup with
    | none => return ()
    | some h =>
      let _ ← beside (lock me h)
      beside (unlock h)
      once .spawn fun _ w =>
        ((), (w.1, { w.2 with spawned := w.2.spawned ++ [⟨h, target, envelope⟩] }))

def lockLane (me : ℕ) (h : Handle) (target : PeerId) : Fiber (World × Post) Env Label Unit :=
  waitFor (.reserve h) (fun _ w => (w.2.lanes h target).isNone) fun _ w =>
    ((), (w.1, { w.2 with
      lanes := Function.update w.2.lanes h (Function.update (w.2.lanes h) target (some me)) }))

def unlockLane (h : Handle) (target : PeerId) : Fiber (World × Post) Env Label Unit :=
  once .releaseSlot fun _ w =>
    ((), (w.1, { w.2 with
      lanes := Function.update w.2.lanes h (Function.update (w.2.lanes h) target none) }))

/-- One dial: whether it succeeded is up to the network. -/
def deliverFrame (t : Delivery) : Fiber (World × Post) Env Label Bool :=
  once (.deliver t.handle) fun e w =>
    if e.subscribeError.isNone then
      (true, (w.1, { w.2 with facts := w.2.facts ++ [.delivered t.handle t.target t.envelope] }))
    else (false, w)

/-- The lane is held over the check and the dial, not over the pause. -/
def runDeliveryWithRetry (me : ℕ) (t : Delivery) : ℕ → Fiber (World × Post) Env Label Unit
  | 0 => return ()
  | retries + 1 => do
    lockLane me t.handle t.target
    let s ← beside (lock me t.handle)
    beside (unlock t.handle)
    if deliveryStillCurrent s.members s.workspaceTicket t.target t.envelope then
      let delivered ← deliverFrame t
      unlockLane t.handle t.target
      if delivered then return () else runDeliveryWithRetry me t retries
    else
      unlockLane t.handle t.target
      return ()

def startTask (k : ℕ) : Fiber (World × Post) Env Label (Option Delivery) :=
  waitFor .claim (fun _ w => k < w.2.spawned.length) fun _ w =>
    (w.2.spawned[k]?, (w.1, { w.2 with spawned := w.2.spawned.eraseIdx k }))

def runTask (me : ℕ) (k : ℕ) : Fiber (World × Post) Env Label Unit := do
  match ← startTask k with
  | none => return ()
  | some t => runDeliveryWithRetry me t WORKSPACE_TICKET_DELIVERY_RETRIES

/-- The members are walked in some order of the set. -/
def fanOut (me : ℕ) (envelope : Bytes) : List PeerId → Fiber (World × Post) Env Label Unit
  | [] => return ()
  | target :: rest => do
    deliverWorkspaceTicketTo d me target envelope
    fanOut me envelope rest

def Post.notePublish (envelope : Bytes) : Label → Env → World → World → Post → Post
  | .update h, _, _, _, g => { g with facts := g.facts ++ [.published h envelope] }
  | _, _, _, _, g => g

def publishWorkspaceTicket (me : ℕ) (envelope : Bytes) (order : List PeerId) :
    Fiber (World × Post) Env Label Outcome := do
  match ← (storeWorkspaceTicket id me envelope).observe (Post.notePublish envelope) with
  | .error e => return .error e
  | .ok members =>
    fanOut d me envelope (order.filter fun p => p ∈ members)
    return .ok .done

/-- What `ensure_member` reads under its first hold of the lock. -/
def Post.noteSnapshot (me : ℕ) : Label → Env → World → World → Post → Post
  | .lock h, _, s, _, g =>
    match g.snapshots me with
    | none =>
      let snapshot := ((s.cells h).session.kind, (s.cells h).session.workspaceTicket)
      { g with snapshots := Function.update g.snapshots me (some snapshot) }
    | some _ => g
  | _, _, _, _, g => g

/-- An admission is followed by a delivery of the envelope it read. -/
def admitAndDeliver (me : ℕ) (peer : PeerInfo) (claim : Option CapClaim) :
    Fiber (World × Post) Env Label Outcome := do
  match ← (ensureMember d id me peer claim).observe (Post.noteSnapshot me) with
  | .error e => return .error e
  | .ok _ =>
    match ← once .lookup fun _ w => (w.2.snapshots me, w) with
    | some (.Local, some envelope) =>
      deliverWorkspaceTicketTo d me peer.id envelope
      return .ok .done
    | _ => return .ok .done

end Registry

/-- Calls of the registry, with the deliveries they spawn and the tasks of these. -/
inductive PostCall
  | hosted (call : HostedCall)
  | admission (peer : PeerInfo) (claim : Option CapClaim)
  | publish (envelope : Bytes) (order : List PeerId)
  | task (k : ℕ)

def PostCall.body {ed : Ed25519} (d : Daemon ed) (id : SessionId) (me : ℕ) :
    PostCall → Fiber (World × Post) Env Label Answer
  | .hosted call => Fiber.beside (call.body d id me)
  | .admission peer claim =>
    (Registry.admitAndDeliver d id me peer claim).bind fun o => .ret (Outcome.answer o)
  | .publish envelope order =>
    (Registry.publishWorkspaceTicket d id me envelope order).bind fun o => .ret (Outcome.answer o)
  | .task k => (Registry.runTask me k).bind fun _ => .ret (.ok .done)

/-- A daemon that has just started: what it loaded counts as published. -/
def Post.start (s : World) : Post where
  lanes _ _ := none
  spawned := []
  snapshots _ := none
  facts := (s.sessions.bind fun h => (s.cells h).session.workspaceTicket.map (.published h)).toList

abbrev PostEvent := Happening PostCall Env Empty

abbrev runPost {ed : Ed25519} (d : Daemon ed) (id : SessionId) (s : World) (hs : List PostEvent) :
    Pool PostCall (World × Post) Env Label Answer :=
  Pool.history (PostCall.body d id) (fun k => Empty.elim k) ⟨(s, Post.start s), []⟩ hs

end Artel
