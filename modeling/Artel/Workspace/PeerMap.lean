import Mathlib.Data.Finmap
import Artel.Session.Caps

namespace Artel.Workspace

/-- The iroh endpoint of a workspace node, which is also its docs author. -/
structure EndpointId where
  bytes : FixedBytes 32
  deriving DecidableEq

inductive ProjectionState
  | initializing
  | replaying
  | ready
  | closed
  deriving DecidableEq

inductive AuthorDisposition
  | rw
  | revoked
  | notRw
  | unresolvable
  deriving DecidableEq

structure PeerMap where
  idMap : EndpointId → Option PeerId
  caps : Finmap fun _ : PeerId => Capability
  /-- Members that were kicked, as against peers that were never granted anything. -/
  revoked : Finset PeerId
  host : PeerId
  readiness : ProjectionState

namespace PeerMap

def withState (host : PeerId) (state : ProjectionState) : PeerMap where
  idMap _ := none
  caps := Finmap.singleton host .readWrite
  revoked := ∅
  host := host
  readiness := state

def replaying (host : PeerId) : PeerMap := withState host .initializing

variable (map : PeerMap)

def isReady : Bool := map.readiness = .ready

def isInitializing : Bool := map.readiness = .initializing

def finishReplay : PeerMap :=
  match map.readiness with
  | .initializing | .replaying => { map with readiness := .ready }
  | .ready | .closed => map

def close : PeerMap := { map with readiness := .closed }

def beginReplay : PeerMap :=
  match map.readiness with
  | .ready => { map with readiness := .replaying }
  | .initializing | .replaying | .closed => map

def isRevoked (peer : PeerId) : Bool := peer ∈ map.revoked

def isReadOnly (peer : PeerId) : Bool := map.caps.lookup peer = some .read

def hasRw (peer : PeerId) : Bool := map.caps.lookup peer = some .readWrite

def register (workspaceId : EndpointId) (daemonPeer : PeerId) : PeerMap :=
  { map with idMap := Function.update map.idMap workspaceId (some daemonPeer) }

/-- What an action does; unlike the daemon's projection it does not spare the host. -/
def apply : CapabilityAction → PeerMap
  | .grant peer cap =>
    { map with caps := map.caps.insert peer cap, revoked := map.revoked.erase peer }
  | .revoke peer =>
    { map with caps := map.caps.erase peer, revoked := insert peer map.revoked }

/-- Only the host's messages count. -/
def applyCapability (author : PeerId) (payload : Bytes) : PeerMap :=
  if author ≠ map.host then map
  else
    match CapabilityAction.decode payload with
    | none => map
    | some action => map.apply action

def rwPeersExceptHost : Finset PeerId :=
  map.caps.keys.filter fun peer => peer ≠ map.host ∧ map.hasRw peer

def classifyAuthor (workspaceId : EndpointId) : AuthorDisposition :=
  match map.idMap workspaceId with
  | none => .unresolvable
  | some daemonPeer =>
    if map.hasRw daemonPeer then .rw
    else if map.isRevoked daemonPeer then .revoked
    else .notRw

def revokedDaemonPeer (workspaceId : EndpointId) : Option PeerId :=
  (map.idMap workspaceId).filter map.isRevoked

def applyMessage (m : SessionMessage) : PeerMap :=
  if m.kind = .capability then map.applyCapability m.peer.id m.payload else map

def project (log : List SessionMessage) : PeerMap :=
  (log.insertionSort fun a b => a.seq ≤ b.seq).foldl applyMessage map

theorem mem_rwPeersExceptHost {peer : PeerId} :
    peer ∈ map.rwPeersExceptHost ↔ peer ≠ map.host ∧ map.hasRw peer = true := by
  simp only [rwPeersExceptHost, Finset.mem_filter, Finmap.mem_keys, and_iff_right_iff_imp]
  intro h
  have hlookup : map.caps.lookup peer = some .readWrite := by simpa [hasRw] using h.2
  exact Finmap.lookup_isSome.mp (by rw [hlookup]; rfl)

variable (action : CapabilityAction)

@[simp] theorem apply_host : (map.apply action).host = map.host := by
  cases action <;> rfl

@[simp] theorem apply_idMap : (map.apply action).idMap = map.idMap := by
  cases action <;> rfl

@[simp] theorem apply_readiness :
    (map.apply action).readiness = map.readiness := by
  cases action <;> rfl

theorem lookup_apply (peer : PeerId) :
    (map.apply action).caps.lookup peer =
      if action.target = peer then action.leaves else map.caps.lookup peer := by
  cases action with
  | grant target cap =>
    by_cases h : target = peer
    · subst h
      simp [apply, CapabilityAction.target, CapabilityAction.leaves, Finmap.lookup_insert]
    · simp [apply, CapabilityAction.target, h, Finmap.lookup_insert_of_ne _ (Ne.symm h)]
  | revoke target =>
    by_cases h : target = peer
    · subst h
      simp [apply, CapabilityAction.target, CapabilityAction.leaves, Finmap.lookup_erase]
    · simp [apply, CapabilityAction.target, h, Finmap.lookup_erase_ne (Ne.symm h)]

theorem mem_revoked_apply (peer : PeerId) :
    peer ∈ (map.apply action).revoked ↔
      if action.target = peer then action = .revoke peer else peer ∈ map.revoked := by
  cases action with
  | grant target cap | revoke target =>
    by_cases h : target = peer
    · simp [apply, CapabilityAction.target, h]
    · simp [apply, CapabilityAction.target, h, Ne.symm h]

section

variable (m : SessionMessage)
include m

theorem applyMessage_cases :
    (∃ action, m.kind = .capability ∧ m.peer.id = map.host ∧
      CapabilityAction.decode m.payload = some action ∧ map.applyMessage m = map.apply action) ∨
    ((∀ peer, actionOn map.host peer m = none) ∧ map.applyMessage m = map) := by
  unfold applyMessage applyCapability
  by_cases hkind : m.kind = .capability
  · by_cases hauthor : m.peer.id = map.host
    · cases hdecode : CapabilityAction.decode m.payload with
      | none => exact .inr ⟨fun peer => by simp [actionOn, hdecode], by simp [hauthor]⟩
      | some action => exact .inl ⟨action, hkind, hauthor, rfl, by simp [hkind, hauthor]⟩
    · exact .inr ⟨fun peer => by simp [actionOn, hauthor], by simp [hauthor]⟩
  · exact .inr ⟨fun peer => by simp [actionOn, hkind], by simp [hkind]⟩

@[simp] theorem applyMessage_host : (map.applyMessage m).host = map.host := by
  obtain ⟨action, -, -, -, h⟩ | ⟨-, h⟩ := map.applyMessage_cases m <;> simp [h]

@[simp] theorem applyMessage_idMap :
    (map.applyMessage m).idMap = map.idMap := by
  obtain ⟨action, -, -, -, h⟩ | ⟨-, h⟩ := map.applyMessage_cases m <;> simp [h]

@[simp] theorem applyMessage_readiness :
    (map.applyMessage m).readiness = map.readiness := by
  obtain ⟨action, -, -, -, h⟩ | ⟨-, h⟩ := map.applyMessage_cases m <;> simp [h]

theorem lookup_applyMessage (peer : PeerId) :
    (map.applyMessage m).caps.lookup peer =
      ((actionOn map.host peer m).map CapabilityAction.leaves).getD (map.caps.lookup peer) := by
  obtain ⟨action, hkind, hauthor, hdecode, h⟩ | ⟨hnone, h⟩ := map.applyMessage_cases m
  · rw [h, lookup_apply]
    by_cases htarget : action.target = peer <;>
      simp [actionOn, hkind, hauthor, hdecode, Option.filter_some, htarget]
  · simp [h, hnone]

theorem mem_revoked_applyMessage (peer : PeerId) :
    peer ∈ (map.applyMessage m).revoked ↔
      match actionOn map.host peer m with
      | some action => action = .revoke peer
      | none => peer ∈ map.revoked := by
  obtain ⟨action, hkind, hauthor, hdecode, h⟩ | ⟨hnone, h⟩ := map.applyMessage_cases m
  · rw [h, mem_revoked_apply]
    by_cases htarget : action.target = peer <;>
      simp [actionOn, hkind, hauthor, hdecode, Option.filter_some, htarget]
  · simp [h, hnone]

end

section Fold

variable (log : List SessionMessage)

@[simp] theorem foldl_host : (log.foldl applyMessage map).host = map.host := by
  induction log generalizing map with
  | nil => rfl
  | cons m log ih => rw [List.foldl_cons, ih, applyMessage_host]

theorem lookup_foldl (peer : PeerId) :
    (log.foldl applyMessage map).caps.lookup peer =
      ((lastAction map.host peer log).map CapabilityAction.leaves).getD (map.caps.lookup peer) := by
  induction log using List.reverseRecOn with
  | nil => simp [lastAction]
  | append_singleton log m ih =>
    rw [List.foldl_append, List.foldl_cons, List.foldl_nil, lookup_applyMessage, foldl_host, ih]
    cases hact : actionOn map.host peer m <;>
      simp [lastAction, List.filterMap_append, hact]

end Fold

theorem lookup_replaying (host peer : PeerId) :
    (replaying host).caps.lookup peer = rootCaps host peer := by
  by_cases h : peer = host
  · subst h
    simp [replaying, withState, rootCaps, Finmap.lookup_singleton_eq]
  · have hnot : peer ∉ (Finmap.singleton host .readWrite : Finmap fun _ : PeerId => Capability) := by
      simpa [Finmap.mem_singleton] using h
    simp [replaying, withState, rootCaps, Function.update_of_ne h, Finmap.lookup_eq_none.mpr hnot]

end PeerMap

/-- The projections agree unless the last word on the host takes its `ReadWrite`. -/
theorem project_eq_projectCaps_iff (host : PeerId) (log : List SessionMessage) :
    (fun peer => ((PeerMap.replaying host).project log).caps.lookup peer) = projectCaps host log ↔
      ∀ action, lastAction host host (log.insertionSort fun a b => a.seq ≤ b.seq) = some action →
        action = .grant host .readWrite := by
  have hlookup : ∀ peer, ((PeerMap.replaying host).project log).caps.lookup peer =
      ((lastAction host peer (log.insertionSort fun a b => a.seq ≤ b.seq)).map
        CapabilityAction.leaves).getD (rootCaps host peer) := by
    intro peer
    rw [PeerMap.project, PeerMap.lookup_foldl, PeerMap.lookup_replaying]
    rfl
  have hother : ∀ peer, peer ≠ host →
      ((PeerMap.replaying host).project log).caps.lookup peer = projectCaps host log peer := by
    intro peer hne
    rw [hlookup, projectCaps_eq_foldl, foldl_stepCaps_apply host hne, rootCaps,
      Function.update_of_ne hne]
    cases lastAction host peer (log.insertionSort fun a b => a.seq ≤ b.seq) <;> rfl
  have hhost : (fun peer => ((PeerMap.replaying host).project log).caps.lookup peer) =
      projectCaps host log ↔
        ((PeerMap.replaying host).project log).caps.lookup host = some .readWrite := by
    refine ⟨fun h => ?_, fun h => funext fun peer => ?_⟩
    · rw [← projectCaps_host host log]
      exact congrFun h host
    · by_cases hpeer : peer = host
      · rw [hpeer, h, projectCaps_host]
      · exact hother peer hpeer
  rw [hhost, hlookup]
  cases hlast : lastAction host host (log.insertionSort fun a b => a.seq ≤ b.seq) with
  | none => simp [rootCaps]
  | some action =>
    have htarget := lastAction_target hlast
    cases action with
    | revoke peer => simp [CapabilityAction.leaves]
    | grant peer cap =>
      obtain rfl : peer = host := htarget
      simp [CapabilityAction.leaves]

def NODE_ID_ACTION : String := "workspace.node_id"

def NODE_ID_ANNOUNCE_DOMAIN_TAG : Bytes :=
  Signing.ascii ['a', 'r', 't', 'e', 'l', '-', 'f', 's', '/', 'n', 'o', 'd', 'e', '-', 'i', 'd',
    '-', 'a', 'n', 'n', 'o', 'u', 'n', 'c', 'e', '/', 'v', '1']

/-- A claimed endpoint with a proof that its key is held. -/
def nodeIdAnnounceWire : Wire (FixedBytes 32 × FixedBytes 64) :=
  (Wire.fixed 32).pair (Wire.fixed 64)

def nodeIdAnnounceSignedBytes (session : SessionId) (sender : PeerId) (workspaceId : EndpointId) :
    Bytes :=
  NODE_ID_ANNOUNCE_DOMAIN_TAG ++ session.bytes.val ++ sender.bytes.val ++ workspaceId.bytes.val

/-- The endpoint that a message's payload claims and proves for its author. -/
def announced (ed : Ed25519) (session : SessionId) (m : SessionMessage) : Option EndpointId :=
  match nodeIdAnnounceWire.decode m.payload with
  | none => none
  | some (workspaceId, signature) =>
    if ed.validKey ⟨workspaceId⟩ ∧ ed.verifyStrict ⟨workspaceId⟩
        (nodeIdAnnounceSignedBytes session m.peer.id ⟨workspaceId⟩) signature then
      some ⟨workspaceId⟩
    else none

def PeerMap.observe (ed : Ed25519) (session : SessionId) (map : PeerMap) (m : SessionMessage) :
    PeerMap :=
  match m.kind with
  | .capability => map.applyCapability m.peer.id m.payload
  | .system =>
    if m.action = NODE_ID_ACTION then
      match announced ed session m with
      | some workspaceId => map.register workspaceId m.peer.id
      | none => map
    else map
  | .chat | .tool => map

namespace PeerMap

variable (ed : Ed25519) (session : SessionId) (map : PeerMap) (m : SessionMessage)

theorem observe_cases :
    (∃ workspaceId, m.kind = .system ∧ m.action = NODE_ID_ACTION ∧
      announced ed session m = some workspaceId ∧
      map.observe ed session m = map.register workspaceId m.peer.id) ∨
    map.observe ed session m = map.applyMessage m := by
  unfold observe applyMessage
  cases hkind : m.kind with
  | capability => exact .inr rfl
  | chat => exact .inr rfl
  | tool => exact .inr rfl
  | system =>
    by_cases haction : m.action = NODE_ID_ACTION
    · cases hannounced : announced ed session m with
      | some workspaceId => exact .inl ⟨workspaceId, rfl, haction, rfl, by simp [haction]⟩
      | none => exact .inr (by simp)
    · exact .inr (by simp [haction])

@[simp] theorem observe_host : (map.observe ed session m).host = map.host := by
  obtain ⟨e, -, -, -, h⟩ | h := map.observe_cases ed session m
  · rw [h]
    rfl
  · rw [h, applyMessage_host]

@[simp] theorem observe_readiness : (map.observe ed session m).readiness = map.readiness := by
  obtain ⟨e, -, -, -, h⟩ | h := map.observe_cases ed session m
  · rw [h]
    rfl
  · rw [h, applyMessage_readiness]

theorem mem_revoked_observe (peer : PeerId) :
    peer ∈ (map.observe ed session m).revoked ↔
      match actionOn map.host peer m with
      | some action => action = .revoke peer
      | none => peer ∈ map.revoked := by
  obtain ⟨e, hkind, -, -, h⟩ | h := map.observe_cases ed session m
  · simp [h, register, actionOn, hkind]
  · rw [h, mem_revoked_applyMessage]

theorem lookup_observe (peer : PeerId) :
    (map.observe ed session m).caps.lookup peer =
      ((actionOn map.host peer m).map CapabilityAction.leaves).getD (map.caps.lookup peer) := by
  obtain ⟨e, hkind, -, -, h⟩ | h := map.observe_cases ed session m
  · simp [h, register, actionOn, hkind]
  · rw [h, lookup_applyMessage]

end PeerMap

namespace Sample

open Artel.Sample

def capability (author : UInt8) (seq : UInt64) (action : CapabilityAction) : SessionMessage :=
  message author seq .capability "" action.encode

def selfRevoke : List SessionMessage := [capability 0 1 (.revoke (peer 0))]

theorem projections_differ :
    ((PeerMap.replaying (peer 0)).project selfRevoke).caps.lookup (peer 0) = none ∧
      projectCaps (peer 0) selfRevoke (peer 0) = some .readWrite := by
  decide +kernel

end Sample

end Artel.Workspace
