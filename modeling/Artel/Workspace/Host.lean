import Artel.Workspace.PeerMap

namespace Artel.Workspace

/-- An iroh-docs namespace, for its id, its secret and its tickets. -/
abbrev Namespace := ℕ

/-- `HostEvict`, the one signal of a host's listener, never coalesced. -/
structure RotationSignal where
  revokedPeer : PeerId
  revokeSeq : Seq
  deriving DecidableEq

structure RotationOutcome where
  newNamespace : Namespace
  newEpoch : ℕ
  deriving DecidableEq

structure RedeliveryStamp where
  namespaceEpoch : ℕ
  announceSeq : Seq
  deriving DecidableEq

/-- The epoch comes first. -/
def RedeliveryStamp.le (a b : RedeliveryStamp) : Bool :=
  a.namespaceEpoch < b.namespaceEpoch ||
    (a.namespaceEpoch == b.namespaceEpoch && decide (a.announceSeq ≤ b.announceSeq))

/-- What the listener spawns; each waits for the projection and asks it again. -/
inductive Task
  /-- `publish_upgrade` with the secret of the time it was spawned. -/
  | upgrade (peer : PeerId) (secret : Namespace)
  /-- `publish_upgrade` and `publish_rotate` after an announcement. -/
  | redeliver (peer : PeerId) (secret ticket : Namespace) (stamp : RedeliveryStamp)
  | downgrade (peer : PeerId)
  | removeMember (peer : PeerId)
  deriving DecidableEq

inductive Rotation
  | idle
  /-- The revoke is above the mark; the projection is awaited. -/
  | waiting (signal : RotationSignal)
  /-- `rotate_namespace` collects the survivors. -/
  | collecting (signal : RotationSignal)
  /-- The namespace is created; it is filled, shared and recorded next. -/
  | minted (signal : RotationSignal) (ns : Namespace)
  /-- `current-namespace` names it; the epoch is recorded next. -/
  | named (signal : RotationSignal) (ns : Namespace)
  /-- `rotate_namespace` returned. -/
  | rotated (signal : RotationSignal) (outcome : RotationOutcome)
  /-- Epoch and mark are advanced; the host moves next. -/
  | marked (outcome : RotationOutcome)
  /-- `refresh_distribution_state` is next. -/
  | reimported (outcome : RotationOutcome)
  /-- The survivors are listed next. -/
  | refreshed (outcome : RotationOutcome)
  | distributing (outcome : RotationOutcome) (left : Finset PeerId)
  deriving DecidableEq

/-- What the listener acts on; a gap and the stream's end are the same to it. -/
inductive CapEvent
  | message (m : SessionMessage)
  | replayComplete
  | peerJoined (peer : PeerId)
  | gap
  deriving DecidableEq

inductive Listener
  /-- Subscribed to a channel, with the events on their way. -/
  | streaming (channel : ℕ) (events : List CapEvent)
  | reconnecting
  | stopped
  deriving DecidableEq

/-- What a run can be held to: the order in which things happened. -/
inductive Mark
  /-- The daemon made the session's record. -/
  | created (genesis : Namespace)
  /-- The listener applied a capability message to its map. -/
  | applied (genesis : Namespace) (m : SessionMessage)
  /-- `WorkspaceEvent::PeerRevoked` -/
  | peerRevoked (peer : PeerId)
  | enqueued (signal : RotationSignal)
  /-- `rotate_namespace` was called. -/
  | began (signal : RotationSignal)
  /-- `rotate_namespace` returned. -/
  | completed (ns : Namespace)
  /-- The secret or the write ticket of a namespace was sent to a peer. -/
  | handed (peer : PeerId) (ns : Namespace)
  | downgraded (peer : PeerId)
  | removedMember (peer : PeerId)
  deriving DecidableEq

structure Host where
  /-- The session's id is derived from it. -/
  genesis : Namespace
  peerMap : PeerMap
  listener : Listener
  lastSeq : Option Seq
  upgradeSecret : Namespace
  currentWriteTicket : Namespace × ℕ
  redelivered : PeerId → Option RedeliveryStamp
  tasks : List Task
  signals : List RotationSignal
  /-- The live doc. -/
  doc : Namespace
  namespaceEpoch : ℕ
  rotatedRevokeSeq : Seq
  rotation : Rotation

/-- The daemon's peer id, which hosts, and the derivation of session ids. -/
structure Site where
  ed : Ed25519
  host : PeerId
  sessionIdFor : Namespace → SessionId

def maxSeq (prev : Option Seq) (seq : Seq) : Seq := prev.elim seq fun p => max p seq

namespace Host

variable (site : Site) (h : Host)

/-- What a subscription from `lastSeq` leaves out. -/
def seen : Seq := h.lastSeq.getD Seq.ZERO

def spawn (task : Task) : Host := { h with tasks := h.tasks ++ [task] }

/-- The map is updated first; a grant asks it, a revoke does not. -/
def handleCapabilityMessage (m : SessionMessage) : Host × List Mark :=
  let applied := { h with peerMap := h.peerMap.applyCapability m.peer.id m.payload }
  let mark := Mark.applied h.genesis m
  match CapabilityAction.decode m.payload with
  | none => (applied, [mark])
  | some (.grant peer .readWrite) =>
    if applied.peerMap.hasRw peer then (applied.spawn (.upgrade peer h.upgradeSecret), [mark])
    else (applied, [mark])
  | some (.grant peer .read) =>
    -- a demotion is told from a fresh grant by the map as it was
    if h.peerMap.hasRw peer then (applied.spawn (.downgrade peer), [mark]) else (applied, [mark])
  | some (.revoke peer) =>
    let signal : RotationSignal := ⟨peer, m.seq⟩
    let noticed := if m.peer.id = h.peerMap.host then [Mark.peerRevoked peer] else []
    ({ applied with signals := h.signals ++ [signal] }.spawn (.removeMember peer),
      mark :: noticed ++ [.enqueued signal])

/-- One delivery for an announcement, unless made at this epoch. -/
def claimRedelivery (peer : PeerId) (stamp : RedeliveryStamp) : Option Host :=
  if (h.redelivered peer).any stamp.le then none
  else some { h with redelivered := Function.update h.redelivered peer (some stamp) }

def rollbackRedelivery (peer : PeerId) (stamp : RedeliveryStamp) : Host :=
  if h.redelivered peer = some stamp then
    { h with redelivered := Function.update h.redelivered peer none }
  else h

def handleNodeIdMessage (m : SessionMessage) : Host :=
  match announced site.ed (site.sessionIdFor h.genesis) m with
  | none => h
  | some workspaceId =>
    let registered := { h with peerMap := h.peerMap.register workspaceId m.peer.id }
    if registered.peerMap.hasRw m.peer.id then
      let stamp : RedeliveryStamp := ⟨h.currentWriteTicket.2, m.seq⟩
      match registered.claimRedelivery m.peer.id stamp with
      | none => registered
      | some claimed =>
        claimed.spawn (.redeliver m.peer.id h.upgradeSecret h.currentWriteTicket.1 stamp)
    else registered

def handleMessage (m : SessionMessage) : Host × List Mark :=
  let (handled, marks) :=
    match m.kind with
    | .capability => h.handleCapabilityMessage m
    | .system => if m.action = NODE_ID_ACTION then (h.handleNodeIdMessage site m, []) else (h, [])
    | .chat | .tool => (h, [])
  ({ handled with lastSeq := some (maxSeq h.lastSeq m.seq) }, marks)

/-- The revoked members are removed before the first replay counts as complete. -/
def completeCapReplay (cleaned : Bool) : Host :=
  if h.peerMap.isReady then h
  else if h.peerMap.isInitializing && !cleaned && decide (h.peerMap.revoked ≠ ∅) then
    { h with peerMap := h.peerMap.close }
  else { h with peerMap := h.peerMap.finishReplay }

def handleCapEvent (cleaned : Bool) : CapEvent → Host × List Mark
  | .message m => h.handleMessage site m
  | .replayComplete => (h.completeCapReplay cleaned, [])
  | .peerJoined peer =>
    if h.peerMap.hasRw peer then (h.spawn (.upgrade peer h.upgradeSecret), []) else (h, [])
  | .gap => ({ h with peerMap := h.peerMap.beginReplay, listener := .reconnecting }, [])

def dropTask (k : ℕ) : Host := { h with tasks := h.tasks.eraseIdx k }

/-- A task whose projection is ready; what it sends is decided now, and may fail. -/
def deliver (ok : Bool) : Task → Host × List Mark
  | .upgrade peer secret =>
    (h, if h.peerMap.hasRw peer then [.handed peer secret] else [])
  | .redeliver peer secret ticket stamp =>
    if h.peerMap.hasRw peer then
      (if ok then h else h.rollbackRedelivery peer stamp, [.handed peer secret, .handed peer ticket])
    else (h.rollbackRedelivery peer stamp, [])
  | .downgrade peer => (h, if h.peerMap.isReadOnly peer then [.downgraded peer] else [])
  | .removeMember peer => (h, if h.peerMap.isRevoked peer then [.removedMember peer] else [])

def abandon : Task → Host
  | .redeliver peer _ _ stamp => h.rollbackRedelivery peer stamp
  | .upgrade _ _ | .downgrade _ | .removeMember _ => h

def runTask (k : ℕ) (ok : Bool) : Host × List Mark :=
  match h.tasks[k]? with
  | none => (h, [])
  | some task =>
    match h.peerMap.readiness with
    | .initializing | .replaying => (h, [])
    | .closed => ((h.dropTask k).abandon task, [])
    | .ready => (h.dropTask k).deliver ok task

/-- The signal a message sends to the rotation task, whoever its author is. -/
def evictions (m : SessionMessage) : List RotationSignal :=
  if m.kind = .capability then
    match CapabilityAction.decode m.payload with
    | some (.revoke peer) => [⟨peer, m.seq⟩]
    | some (.grant _ _) | none => []
  else []

theorem mem_evictions {m : SessionMessage} {signal : RotationSignal} :
    signal ∈ evictions m ↔ m.kind = .capability ∧
      CapabilityAction.decode m.payload = some (.revoke signal.revokedPeer) ∧
      m.seq = signal.revokeSeq := by
  unfold evictions
  by_cases hkind : m.kind = .capability
  · cases hdecode : CapabilityAction.decode m.payload with
    | none => simp [hkind]
    | some action =>
      cases action with
      | grant peer cap => simp [hkind]
      | revoke peer =>
        obtain ⟨revokedPeer, revokeSeq⟩ := signal
        simp [hkind, eq_comm]
  · simp [hkind]

/-- A grant of `ReadWrite` that the map bears out is followed by the secret. -/
def upgrades (m : SessionMessage) : List Task :=
  if m.kind = .capability then
    match CapabilityAction.decode m.payload with
    | some (.grant peer .readWrite) =>
      if (h.peerMap.applyCapability m.peer.id m.payload).hasRw peer then
        [.upgrade peer h.upgradeSecret]
      else []
    | some (.grant _ .read) | some (.revoke _) | none => []
  else []

/-- All but the map, the watermark, the signals and what is spawned stays as it is. -/
structure Keeps (h h' : Host) : Prop where
  genesis : h'.genesis = h.genesis
  listener : h'.listener = h.listener
  upgradeSecret : h'.upgradeSecret = h.upgradeSecret
  currentWriteTicket : h'.currentWriteTicket = h.currentWriteTicket
  doc : h'.doc = h.doc
  namespaceEpoch : h'.namespaceEpoch = h.namespaceEpoch
  rotatedRevokeSeq : h'.rotatedRevokeSeq = h.rotatedRevokeSeq
  rotation : h'.rotation = h.rotation

theorem Keeps.refl : Keeps h h := ⟨rfl, rfl, rfl, rfl, rfl, rfl, rfl, rfl⟩

def messageMarks (m : SessionMessage) : List Mark :=
  if m.kind = .capability then
    .applied h.genesis m ::
      (match CapabilityAction.decode m.payload with
        | some (.revoke peer) => if m.peer.id = h.peerMap.host then [Mark.peerRevoked peer] else []
        | some (.grant _ _) | none => []) ++ (evictions m).map .enqueued
  else []

theorem mem_messageMarks {h : Host} {m : SessionMessage} {mark : Mark}
    (hin : mark ∈ h.messageMarks m) : mark = .applied h.genesis m ∨
      (∃ peer, mark = .peerRevoked peer) ∨ ∃ signal ∈ evictions m, mark = .enqueued signal := by
  unfold messageMarks at hin
  split at hin
  · obtain hin | hin := List.mem_append.mp hin
    · obtain rfl | hin := List.mem_cons.mp hin
      · exact .inl rfl
      · refine .inr (.inl ?_)
        split at hin
        · split at hin
          · exact ⟨_, List.mem_singleton.mp hin⟩
          · cases hin
        · cases hin
        · cases hin
    · obtain ⟨signal, hsignal, rfl⟩ := List.mem_map.mp hin
      exact .inr (.inr ⟨signal, hsignal, rfl⟩)
  · cases hin

structure Handled (m : SessionMessage) (h' : Host) : Prop where
  keeps : Keeps h h'
  peerMap : h'.peerMap = h.peerMap.observe site.ed (site.sessionIdFor h.genesis) m
  lastSeq : h'.lastSeq = some (maxSeq h.lastSeq m.seq)
  signals : h'.signals = h.signals ++ evictions m
  tasks : ∃ spawned, h'.tasks = h.tasks ++ spawned ∧ h.upgrades m ⊆ spawned ∧
    ∀ task ∈ spawned, (∃ peer, task = .upgrade peer h.upgradeSecret) ∨
      (∃ peer stamp, task = .redeliver peer h.upgradeSecret h.currentWriteTicket.1 stamp) ∨
      (∃ peer, task = .downgrade peer) ∨ ∃ peer, task = .removeMember peer

variable (m : SessionMessage)

theorem handleCapabilityMessage_spec (hkind : m.kind = .capability) :
    Handled site h m
        { (h.handleCapabilityMessage m).1 with lastSeq := some (maxSeq h.lastSeq m.seq) } ∧
      (h.handleCapabilityMessage m).2 = h.messageMarks m := by
  have hobserve : h.peerMap.observe site.ed (site.sessionIdFor h.genesis) m =
      h.peerMap.applyCapability m.peer.id m.payload := by
    simp [PeerMap.observe, hkind]
  unfold handleCapabilityMessage
  cases hdecode : CapabilityAction.decode m.payload with
  | none =>
    refine ⟨⟨⟨rfl, rfl, rfl, rfl, rfl, rfl, rfl, rfl⟩, hobserve.symm, rfl, ?_, [], ?_, ?_, ?_⟩, ?_⟩ <;>
      simp [evictions, upgrades, messageMarks, hkind, hdecode]
  | some action =>
    cases action with
    | revoke peer =>
      refine ⟨⟨⟨rfl, rfl, rfl, rfl, rfl, rfl, rfl, rfl⟩, hobserve.symm, rfl, ?_,
        [.removeMember peer], ?_, ?_, ?_⟩, ?_⟩ <;>
        simp [spawn, evictions, upgrades, messageMarks, hkind, hdecode]
    | grant peer cap =>
      cases cap with
      | read =>
        by_cases hrw : h.peerMap.hasRw peer
        · refine ⟨⟨⟨?_, ?_, ?_, ?_, ?_, ?_, ?_, ?_⟩, ?_, ?_, ?_, [.downgrade peer], ?_, ?_, ?_⟩,
            ?_⟩ <;>
            simp [spawn, evictions, upgrades, messageMarks, hkind, hdecode, hrw, hobserve]
        · refine ⟨⟨⟨?_, ?_, ?_, ?_, ?_, ?_, ?_, ?_⟩, ?_, ?_, ?_, [], ?_, ?_, ?_⟩, ?_⟩ <;>
            simp [evictions, upgrades, messageMarks, hkind, hdecode, hrw, hobserve]
      | readWrite =>
        by_cases hrw : (h.peerMap.applyCapability m.peer.id m.payload).hasRw peer
        · refine ⟨⟨⟨?_, ?_, ?_, ?_, ?_, ?_, ?_, ?_⟩, ?_, ?_, ?_,
            [.upgrade peer h.upgradeSecret], ?_, ?_, ?_⟩, ?_⟩ <;>
            simp [spawn, evictions, upgrades, messageMarks, hkind, hdecode, hrw, hobserve]
        · refine ⟨⟨⟨?_, ?_, ?_, ?_, ?_, ?_, ?_, ?_⟩, ?_, ?_, ?_, [], ?_, ?_, ?_⟩, ?_⟩ <;>
            simp [evictions, upgrades, messageMarks, hkind, hdecode, hrw, hobserve]

theorem handleNodeIdMessage_spec (hkind : m.kind = .system)
    (haction : m.action = NODE_ID_ACTION) :
    Handled site h m
      { h.handleNodeIdMessage site m with lastSeq := some (maxSeq h.lastSeq m.seq) } := by
  unfold handleNodeIdMessage
  cases hannounced : announced site.ed (site.sessionIdFor h.genesis) m with
  | none =>
    refine ⟨⟨rfl, rfl, rfl, rfl, rfl, rfl, rfl, rfl⟩, ?_, rfl, ?_, [], ?_, ?_, ?_⟩ <;>
      simp [PeerMap.observe, evictions, upgrades, hkind, hannounced]
  | some workspaceId =>
    have hobserve : h.peerMap.observe site.ed (site.sessionIdFor h.genesis) m =
        h.peerMap.register workspaceId m.peer.id := by
      simp [PeerMap.observe, hkind, haction, hannounced]
    have hplain : Handled site h m { h with
        peerMap := h.peerMap.register workspaceId m.peer.id
        lastSeq := some (maxSeq h.lastSeq m.seq) } := by
      refine ⟨⟨rfl, rfl, rfl, rfl, rfl, rfl, rfl, rfl⟩, hobserve.symm, rfl, ?_, [], ?_, ?_, ?_⟩ <;>
        simp [evictions, upgrades, hkind]
    dsimp only
    split
    · unfold claimRedelivery
      split
      · exact hplain
      rename_i hclaim
      split at hclaim
      · cases hclaim
      · cases hclaim
        refine ⟨⟨rfl, rfl, rfl, rfl, rfl, rfl, rfl, rfl⟩, hobserve.symm, rfl, ?_,
          [.redeliver m.peer.id h.upgradeSecret h.currentWriteTicket.1
            ⟨h.currentWriteTicket.2, m.seq⟩], rfl, ?_, ?_⟩ <;>
          simp [spawn, evictions, upgrades, hkind]
    · exact hplain

theorem handleMessage_spec :
    Handled site h m (h.handleMessage site m).1 ∧ (h.handleMessage site m).2 = h.messageMarks m := by
  have hplain : m.kind ≠ .capability → h.peerMap.observe site.ed (site.sessionIdFor h.genesis) m =
      h.peerMap → Handled site h m { h with lastSeq := some (maxSeq h.lastSeq m.seq) } := by
    intro hkind hobserve
    refine ⟨⟨rfl, rfl, rfl, rfl, rfl, rfl, rfl, rfl⟩, hobserve.symm, rfl, ?_, [], ?_, ?_, ?_⟩ <;>
      simp [evictions, upgrades, hkind]
  unfold handleMessage
  cases hkind : m.kind with
  | capability => exact handleCapabilityMessage_spec site h m hkind
  | system =>
    by_cases haction : m.action = NODE_ID_ACTION
    · refine ⟨?_, by simp [messageMarks, hkind, haction]⟩
      simpa [haction] using handleNodeIdMessage_spec site h m hkind haction
    · refine ⟨?_, by simp [messageMarks, hkind, haction]⟩
      simpa [haction] using hplain (by simp [hkind]) (by simp [PeerMap.observe, hkind, haction])
  | chat | tool =>
    exact ⟨hplain (by simp [hkind]) (by simp [PeerMap.observe, hkind]), by simp [messageMarks, hkind]⟩

def deliveries : Task → List Mark
  | .upgrade peer secret => if h.peerMap.hasRw peer then [.handed peer secret] else []
  | .redeliver peer secret ticket _ =>
    if h.peerMap.hasRw peer then [.handed peer secret, .handed peer ticket] else []
  | .downgrade peer => if h.peerMap.isReadOnly peer then [.downgraded peer] else []
  | .removeMember peer => if h.peerMap.isRevoked peer then [.removedMember peer] else []

/-- What a turn of a task does to its host: it waits, or is over. -/
structure Ran (k : ℕ) (h' : Host) (marks : List Mark) : Prop where
  keeps : Keeps h h'
  peerMap : h'.peerMap = h.peerMap
  lastSeq : h'.lastSeq = h.lastSeq
  signals : h'.signals = h.signals
  tasks : (h'.tasks = h.tasks ∧ marks = []) ∨
    ∃ task, h.tasks[k]? = some task ∧ h'.tasks = h.tasks.eraseIdx k ∧
      (h.peerMap.readiness = .closed ∧ marks = [] ∨
        h.peerMap.readiness = .ready ∧ marks = h.deliveries task)

theorem rollbackRedelivery_eq (peer : PeerId) (stamp : RedeliveryStamp) :
    ∃ redelivered, h.rollbackRedelivery peer stamp = { h with redelivered := redelivered } := by
  unfold rollbackRedelivery
  split
  · exact ⟨_, rfl⟩
  · exact ⟨h.redelivered, rfl⟩

theorem abandon_eq (task : Task) :
    ∃ redelivered, h.abandon task = { h with redelivered := redelivered } := by
  cases task with
  | redeliver peer secret ticket stamp => exact h.rollbackRedelivery_eq peer stamp
  | upgrade peer secret | downgrade peer | removeMember peer => exact ⟨h.redelivered, rfl⟩

theorem deliver_eq (ok : Bool) (task : Task) :
    (∃ redelivered, (h.deliver ok task).1 = { h with redelivered := redelivered }) ∧
      (h.deliver ok task).2 = h.deliveries task := by
  cases task with
  | redeliver peer secret ticket stamp =>
    unfold deliver deliveries
    dsimp only
    split
    · refine ⟨?_, rfl⟩
      cases ok
      · exact h.rollbackRedelivery_eq peer stamp
      · exact ⟨h.redelivered, rfl⟩
    · exact ⟨h.rollbackRedelivery_eq peer stamp, rfl⟩
  | upgrade peer secret | downgrade peer | removeMember peer => exact ⟨⟨h.redelivered, rfl⟩, rfl⟩

theorem runTask_spec (k : ℕ) (ok : Bool) : Ran h k (h.runTask k ok).1 (h.runTask k ok).2 := by
  have hwaits : Ran h k h [] := ⟨.refl h, rfl, rfl, rfl, .inl ⟨rfl, rfl⟩⟩
  have hends : ∀ {task redelivered marks}, h.tasks[k]? = some task →
      (h.peerMap.readiness = .closed ∧ marks = [] ∨
        h.peerMap.readiness = .ready ∧ marks = h.deliveries task) →
      Ran h k { h.dropTask k with redelivered := redelivered } marks := fun htask hmarks =>
    ⟨⟨rfl, rfl, rfl, rfl, rfl, rfl, rfl, rfl⟩, rfl, rfl, rfl, .inr ⟨_, htask, rfl, hmarks⟩⟩
  unfold runTask
  cases htask : h.tasks[k]? with
  | none => exact hwaits
  | some task =>
    cases hready : h.peerMap.readiness with
    | initializing => exact hwaits
    | replaying => exact hwaits
    | closed =>
      obtain ⟨redelivered, heq⟩ := (h.dropTask k).abandon_eq task
      dsimp only
      rw [heq]
      exact hends htask (.inl ⟨hready, rfl⟩)
    | ready =>
      obtain ⟨⟨redelivered, heq⟩, hmarks⟩ := (h.dropTask k).deliver_eq ok task
      rw [heq, hmarks]
      exact hends htask (.inr ⟨hready, rfl⟩)

end Host

end Artel.Workspace
