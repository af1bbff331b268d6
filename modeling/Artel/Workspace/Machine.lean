import Artel.Lib.Run
import Artel.Workspace.Host

namespace Artel.Workspace

structure StateDir where
  /-- `doc-id`, the genesis. -/
  docId : Option Namespace
  currentNamespace : Option Namespace
  namespaceEpoch : Option ℕ
  rotatedRevokeSeq : Option Seq
  deriving DecidableEq

/-- The high-water mark a returning host starts from. -/
def StateDir.mark (dir : StateDir) : Seq := dir.rotatedRevokeSeq.getD Seq.ZERO

structure OpenedDoc where
  doc : Namespace
  genesis : Namespace
  returning : Bool
  epoch : ℕ
  deriving DecidableEq

/-- How far `host_with` has got before its listener runs. -/
inductive Opening
  | start
  /-- `create_and_persist`: the namespace exists, `doc-id` is written next. -/
  | creating (ns : Namespace)
  /-- The epoch of an earlier genesis is removed next. -/
  | recorded (ns : Namespace)
  /-- The high-water mark is recovered, or removed, next. -/
  | opened (doc : OpenedDoc)
  /-- `register_host` is next. -/
  | recovered (doc : OpenedDoc) (mark : Seq)
  /-- The upgrade client hosts the session again next. -/
  | registered (doc : OpenedDoc) (mark : Seq)
  /-- The listener subscribes next. -/
  | upgraded (doc : OpenedDoc) (mark : Seq)
  deriving DecidableEq

inductive Process
  | down
  | opening (phase : Opening)
  | up (h : Host)

/-- What `send` commits, and the channel its subscribers are on. -/
structure Record where
  log : List SessionMessage
  head : Seq
  channel : ℕ

/-- A send that has committed and is yet to tell the channel. -/
structure Pending where
  genesis : Namespace
  channel : ℕ
  message : SessionMessage
  deriving DecidableEq

/-- Daemon, state directory and workspace; sessions are named by their genesis. -/
structure State where
  sessions : Namespace → Option Record
  pending : List Pending
  nextChannel : ℕ
  dir : StateDir
  nextNamespace : Namespace
  process : Process
  trace : List Mark

/-- How the calls of one step of a rotation end, and which survivor is served next. -/
structure RotateAnswer where
  /-- `rotate_namespace` fails at this step. -/
  fault : Bool := false
  persisted : Bool := true
  /-- `reimport_namespace` gets as far as the new doc. -/
  swapped : Bool := true
  /-- The revoked members could be removed. -/
  cleaned : Bool := true
  peer : Option PeerId := none

inductive Event
  /-- Another client of the daemon hosts the session again. -/
  | rehost
  /-- The host leaves a session, which deletes it. -/
  | leave (genesis : Namespace)
  | send (genesis : Namespace) (m : SessionMessage)
  | emit (k : ℕ)
  | peerJoined (genesis : Namespace) (peer : PeerId)
  | restartDaemon
  /-- All but the first events on their way to the listener are lost. -/
  | lose (k : ℕ)
  /-- `host_with` is called. -/
  | start
  /-- Its next step; the docs store has the namespace or not. -/
  | advance (opens : Bool)
  | receive (cleaned : Bool)
  | reconnect
  /-- The listener gives up. -/
  | giveUp
  | task (k : ℕ) (ok : Bool)
  | rotate (answer : RotateAnswer)
  /-- The workspace dies, is shut down, or fails to start. -/
  | crash

namespace Record

def new (channel : ℕ) : Record := ⟨[], Seq.ZERO, channel⟩

def since (r : Record) (seq : Seq) : List CapEvent :=
  (r.log.filter fun m => seq < m.seq ∧ isReserved m = false).map .message

end Record

namespace State

variable (site : Site) (s : State)

def note (marks : List Mark) : State := { s with trace := s.trace ++ marks }

def setHost (h : Host) : State := { s with process := .up h }

def onStream (f : Namespace → ℕ → List CapEvent → List CapEvent) : State :=
  match s.process with
  | .up h =>
    match h.listener with
    | .streaming channel events =>
      s.setHost { h with listener := .streaming channel (f h.genesis channel events) }
    | .reconnecting | .stopped => s
  | .down | .opening _ => s

def publish (genesis : Namespace) (channel : ℕ) (event : CapEvent) : State :=
  s.onStream fun g c events => if g = genesis ∧ c = channel then events ++ [event] else events

/-- `Registry::host` on a session's id: a record that is there is resumed. -/
def hostSession (genesis : Namespace) : State :=
  match s.sessions genesis with
  | some _ => s
  | none =>
    let made := { s with
      sessions := Function.update s.sessions genesis (some (.new s.nextChannel))
      nextChannel := s.nextChannel + 1 }
    made.note [.created genesis]

/-- The part of a send under the session's lock, as far as the log is concerned. -/
def send (genesis : Namespace) (m : SessionMessage) : State :=
  match s.sessions genesis with
  | none => s
  | some r =>
    if r.head.next = some m.seq ∧ isReserved m = false then
      { s with
        sessions := Function.update s.sessions genesis
          (some { r with log := r.log ++ [m], head := m.seq })
        pending := s.pending ++ [⟨genesis, r.channel, m⟩] }
    else s

def emit (k : ℕ) : State :=
  match s.pending[k]? with
  | none => s
  | some p =>
    { s with pending := s.pending.eraseIdx k }.publish p.genesis p.channel (.message p.message)

def peerJoined (genesis : Namespace) (peer : PeerId) : State :=
  match s.sessions genesis with
  | none => s
  | some r => s.publish genesis r.channel (.peerJoined peer)

/-- The logs are on disk; channels and connections are not. -/
def restartDaemon : State :=
  let restarted : State := { s with
    sessions := fun g => (s.sessions g).map fun r : Record => { r with channel := s.nextChannel }
    pending := []
    nextChannel := s.nextChannel + 1 }
  restarted.onStream fun _ _ events => events ++ [.gap]

def lose (k : ℕ) : State := s.onStream fun _ _ events => events.take k ++ [.gap]

def setOpening (phase : Opening) : State := { s with process := .opening phase }

def create : State :=
  { s with nextNamespace := s.nextNamespace + 1 }.setOpening (.creating s.nextNamespace)

/-- `open_or_create_doc` up to its first write. -/
def openOrCreateDoc (opens : Bool) : State :=
  match s.dir.docId with
  | none => s.create
  | some genesis =>
    if opens then
      let current := s.dir.currentNamespace.getD genesis
      s.setOpening (.opened ⟨current, genesis, true, s.dir.namespaceEpoch.getD 0⟩)
    else s.create

def recoverMark (doc : OpenedDoc) : State :=
  if doc.returning then s.setOpening (.recovered doc s.dir.mark)
  else
    { s with dir := { s.dir with rotatedRevokeSeq := none } }.setOpening (.recovered doc Seq.ZERO)

/-- The workspace that `host_with` returns, its listener subscribed to all of the log. -/
def bringUp (doc : OpenedDoc) (mark : Seq) : State :=
  match s.sessions doc.genesis with
  | none => { s with process := .down }
  | some r =>
    s.setHost
      { genesis := doc.genesis
        peerMap := .replaying site.host
        listener := .streaming r.channel (r.since Seq.ZERO ++ [.replayComplete])
        lastSeq := none
        upgradeSecret := doc.doc
        currentWriteTicket := (doc.doc, doc.epoch)
        redelivered := fun _ => none
        tasks := []
        signals := []
        doc := doc.doc
        namespaceEpoch := doc.epoch
        rotatedRevokeSeq := mark
        rotation := .idle }

def advance (opens : Bool) : State :=
  match s.process with
  | .down | .up _ => s
  | .opening .start => s.openOrCreateDoc opens
  | .opening (.creating ns) =>
    { s with dir := { s.dir with docId := some ns } }.setOpening (.recorded ns)
  | .opening (.recorded ns) =>
    { s with dir := { s.dir with namespaceEpoch := none } }.setOpening (.opened ⟨ns, ns, false, 0⟩)
  | .opening (.opened doc) => s.recoverMark doc
  | .opening (.recovered doc mark) =>
    (s.hostSession doc.genesis).setOpening (.registered doc mark)
  | .opening (.registered doc mark) => (s.hostSession doc.genesis).setOpening (.upgraded doc mark)
  | .opening (.upgraded doc mark) => s.bringUp site doc mark

def receive (cleaned : Bool) (h : Host) : State :=
  match h.listener with
  | .streaming channel (event :: rest) =>
    let (handled, marks) :=
      { h with listener := .streaming channel rest }.handleCapEvent site cleaned event
    (s.setHost handled).note marks
  | .streaming _ [] | .reconnecting | .stopped => s

/-- `cap_resubscribe`; without a session it fails, and is tried again. -/
def reconnect (h : Host) : State :=
  match h.listener, s.sessions h.genesis with
  | .reconnecting, some r =>
    s.setHost { h with listener := .streaming r.channel (r.since h.seen ++ [.replayComplete]) }
  | _, _ => s

def giveUp (h : Host) : State :=
  s.setHost { h with listener := .stopped, peerMap := h.peerMap.close }

def runTask (k : ℕ) (ok : Bool) (h : Host) : State :=
  let (ran, marks) := h.runTask k ok
  (s.setHost ran).note marks

/-- Nothing during a replay, and the closed case when the listener is gone. -/
def awaitProjection (h : Host) (closed ready : State) : State :=
  match h.peerMap.readiness with
  | .initializing | .replaying => s
  | .closed => closed
  | .ready => ready

/-- The next step of `handle_host_evict`. -/
def rotate (answer : RotateAnswer) (h : Host) : State :=
  let idle := s.setHost { h with rotation := .idle }
  match h.rotation with
  | .idle =>
    match h.signals with
    | [] => s
    | signal :: rest =>
      -- the idempotency guard: replayed revokes are at or below the mark
      if signal.revokeSeq ≤ h.rotatedRevokeSeq then s.setHost { h with signals := rest }
      else s.setHost { h with signals := rest, rotation := .waiting signal }
  | .waiting signal =>
    s.awaitProjection h idle
      ((s.setHost { h with rotation := .collecting signal }).note [.began signal])
  | .collecting signal =>
    s.awaitProjection h idle
      (if answer.fault then idle
      else
        { s with nextNamespace := s.nextNamespace + 1 }.setHost
          { h with rotation := .minted signal s.nextNamespace })
  | .minted signal ns =>
    if answer.fault then idle
    else
      { s with dir := { s.dir with currentNamespace := some ns } }.setHost
        { h with rotation := .named signal ns }
  | .named signal ns =>
    if answer.fault then idle
    else
      let outcome : RotationOutcome := ⟨ns, h.namespaceEpoch + 1⟩
      ({ s with dir := { s.dir with namespaceEpoch := some outcome.newEpoch } }.setHost
        { h with rotation := .rotated signal outcome }).note [.completed ns]
  | .rotated signal outcome =>
    -- a mark that cannot be written stands in memory all the same
    let dir := if answer.persisted then { s.dir with rotatedRevokeSeq := some signal.revokeSeq }
      else s.dir
    { s with dir := dir }.setHost
      { h with
        namespaceEpoch := outcome.newEpoch
        rotatedRevokeSeq := signal.revokeSeq
        rotation := .marked outcome }
  | .marked outcome =>
    s.setHost
      { h with
        doc := if answer.swapped then outcome.newNamespace else h.doc
        rotation := .reimported outcome }
  | .reimported outcome =>
    let kept := s.setHost { h with rotation := .refreshed outcome }
    s.awaitProjection h kept
      (if answer.cleaned || decide (h.peerMap.revoked = ∅) then
        s.setHost
          { h with
            upgradeSecret := outcome.newNamespace
            currentWriteTicket := (outcome.newNamespace, outcome.newEpoch)
            rotation := .refreshed outcome }
      else kept)
  | .refreshed outcome =>
    s.awaitProjection h idle
      (s.setHost { h with rotation := .distributing outcome h.peerMap.rwPeersExceptHost })
  | .distributing outcome left =>
    if left = ∅ then idle
    else
      match answer.peer with
      | none => s
      | some peer =>
        if peer ∈ left then
          s.awaitProjection h idle
            ((s.setHost { h with rotation := .distributing outcome (left.erase peer) }).note
              (if h.peerMap.hasRw peer then [.handed peer outcome.newNamespace] else []))
        else s

def withHost (f : Host → State) : State :=
  match s.process with
  | .up h => f h
  | .down | .opening _ => s

def step (s : State) : Event → State
  | .rehost =>
    match s.dir.docId with
    | some genesis => s.hostSession genesis
    | none => s
  | .leave genesis => { s with sessions := Function.update s.sessions genesis none }
  | .send genesis m => s.send genesis m
  | .emit k => s.emit k
  | .peerJoined genesis peer => s.peerJoined genesis peer
  | .restartDaemon => s.restartDaemon
  | .lose k => s.lose k
  | .start =>
    match s.process with
    | .down => s.setOpening .start
    | .opening _ | .up _ => s
  | .advance opens => s.advance site opens
  | .receive cleaned => s.withHost (s.receive site cleaned)
  | .reconnect => s.withHost s.reconnect
  | .giveUp => s.withHost s.giveUp
  | .task k ok => s.withHost (s.runTask k ok)
  | .rotate answer => s.withHost (s.rotate answer)
  | .crash => { s with process := .down }

/-- A state directory that was never used, and a daemon that knows none of its sessions. -/
def initial : State := ⟨fun _ => none, [], 0, ⟨none, none, none, none⟩, 0, .down, []⟩

def after (events : List Event) : State := events.foldl (step site) initial

/-- What changes neither the files nor the host but for its listener. -/
structure Outside (s t : State) : Prop where
  dir : t.dir = s.dir
  nextNamespace : t.nextNamespace = s.nextNamespace
  process : t.process = s.process ∨
    ∃ h listener, s.process = .up h ∧ t.process = .up { h with listener := listener }
  trace : t.trace = s.trace ∨
    ∃ genesis, s.sessions genesis = none ∧ t.trace = s.trace ++ [.created genesis]

theorem Outside.refl (s : State) : Outside s s := ⟨rfl, rfl, .inl rfl, .inl rfl⟩

theorem onStream_eq (f : Namespace → ℕ → List CapEvent → List CapEvent) :
    ∃ process, s.onStream f = { s with process := process } ∧ (process = s.process ∨
      ∃ h listener, s.process = .up h ∧ process = .up { h with listener := listener }) := by
  unfold onStream
  split
  · rename_i h hup
    split
    · exact ⟨_, rfl, .inr ⟨h, _, hup, rfl⟩⟩
    · exact ⟨_, rfl, .inl rfl⟩
    · exact ⟨_, rfl, .inl rfl⟩
  · exact ⟨_, rfl, .inl rfl⟩
  · exact ⟨_, rfl, .inl rfl⟩

theorem outside_onStream (f : Namespace → ℕ → List CapEvent → List CapEvent) :
    Outside s (s.onStream f) := by
  obtain ⟨process, heq, hprocess⟩ := s.onStream_eq f
  rw [heq]
  exact ⟨rfl, rfl, hprocess, .inl rfl⟩

theorem outside_hostSession (genesis : Namespace) : Outside s (s.hostSession genesis) := by
  unfold hostSession
  split
  · exact .refl s
  · rename_i hnone
    exact ⟨rfl, rfl, .inl rfl, .inr ⟨genesis, hnone, rfl⟩⟩

end State

/-- The events of the daemon, of the connection to it and of its other clients. -/
def Event.outside : Event → Bool
  | .rehost | .leave _ | .send _ _ | .emit _ | .peerJoined _ _ | .restartDaemon | .lose _
  | .reconnect => true
  | .start | .advance _ | .receive _ | .giveUp | .task _ _ | .rotate _ | .crash => false

namespace State

variable (site : Site) (s : State)

theorem outside_step {event : Event} (h : event.outside = true) :
    Outside s (step site s event) := by
  cases event with
  | rehost =>
    simp only [step]
    split
    · exact s.outside_hostSession _
    · exact .refl s
  | leave genesis => exact ⟨rfl, rfl, .inl rfl, .inl rfl⟩
  | send genesis m =>
    simp only [step, send]
    split
    · exact .refl s
    · split
      · exact ⟨rfl, rfl, .inl rfl, .inl rfl⟩
      · exact .refl s
  | emit k =>
    simp only [step, emit]
    split
    · exact .refl s
    rename_i p hp
    unfold publish
    generalize hemitted : { s with pending := s.pending.eraseIdx k } = emitted
    obtain ⟨process, heq, hprocess⟩ := emitted.onStream_eq _
    rw [heq]
    subst hemitted
    exact ⟨rfl, rfl, hprocess, .inl rfl⟩
  | peerJoined genesis peer =>
    simp only [step, peerJoined]
    split
    · exact .refl s
    · exact s.outside_onStream _
  | restartDaemon =>
    simp only [step, restartDaemon]
    generalize hr : State.mk _ _ _ _ _ _ _ = restarted
    obtain ⟨process, heq, hprocess⟩ := restarted.onStream_eq _
    rw [heq]
    subst hr
    exact ⟨rfl, rfl, hprocess, .inl rfl⟩
  | lose k =>
    simp only [step, lose]
    exact s.outside_onStream _
  | reconnect =>
    simp only [step, withHost]
    split
    · rename_i h' hup
      unfold reconnect
      split
      · exact ⟨rfl, rfl, .inr ⟨h', _, hup, rfl⟩, .inl rfl⟩
      · exact .refl s
    · exact .refl s
    · exact .refl s
  | start | advance _ | receive _ | giveUp | task _ _ | rotate _ | crash => cases h

end State

def Rotation.signal : Rotation → Option RotationSignal
  | .waiting signal | .collecting signal | .minted signal _ | .named signal _
  | .rotated signal _ => some signal
  | .idle | .marked _ | .reimported _ | .refreshed _ | .distributing _ _ => none

def State.incoming (s : State) : Option SessionMessage :=
  match s.process with
  | .up h =>
    match h.listener with
    | .streaming _ (.message m :: _) => some m
    | .streaming _ _ | .reconnecting | .stopped => none
  | .down | .opening _ => none

def State.hosting (s : State) : Option (Host × Record) :=
  match s.process with
  | .up h => (s.sessions h.genesis).map fun r => (h, r)
  | .down | .opening _ => none

theorem State.hosting_eq_some {s : State} {h : Host} {r : Record} :
    s.hosting = some (h, r) ↔ s.process = .up h ∧ s.sessions h.genesis = some r := by
  unfold State.hosting
  cases s.process with
  | down => simp
  | opening phase => simp
  | up host =>
    simp only [Option.map_eq_some_iff, Prod.mk.injEq, Process.up.injEq]
    constructor
    · rintro ⟨r', hr', rfl, rfl⟩
      exact ⟨rfl, hr'⟩
    · rintro ⟨rfl, hr⟩
      exact ⟨r, hr, rfl, rfl⟩

namespace Sample

open Artel.Sample

def site : Site := ⟨.checksum, peer 0, fun _ => session⟩

/-- `host_with` until its listener has subscribed. -/
def hosted : List Event := .start :: List.replicate 7 (.advance true)

def delivered (m : SessionMessage) : List Event := [.send 0 m, .emit 0, .receive true]

end Sample

end Artel.Workspace
