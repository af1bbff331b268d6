import Artel.Fs.Disk

namespace Artel.Fs

open Function

/-- What keeps the watcher from publishing what the applier wrote. -/
structure EchoGuard (η : Type) where
  pending : Path → Bool
  lastPublished : Path → Option η
  peerDeleted : Path → Bool

inductive RemoteDeleteMark
  | fresh
  | duplicate
  deriving DecidableEq

namespace EchoGuard

variable {η : Type} (guard : EchoGuard η) (path : Path) (hash : η)

def new : EchoGuard η := ⟨fun _ => false, fun _ => none, fun _ => false⟩

-- Each of the three maps has its own lock, so these are what can happen between two awaits.

def insertPending : EchoGuard η := { guard with pending := update guard.pending path true }

def removePending : EchoGuard η := { guard with pending := update guard.pending path false }

def insertPeerDeleted : EchoGuard η :=
  { guard with peerDeleted := update guard.peerDeleted path true }

def removePeerDeleted : EchoGuard η :=
  { guard with peerDeleted := update guard.peerDeleted path false }

def insertLastPublished : EchoGuard η :=
  { guard with lastPublished := update guard.lastPublished path (some hash) }

def forget : EchoGuard η :=
  { guard with lastPublished := update guard.lastPublished path none }

def markRemoteWrite : EchoGuard η :=
  ((guard.insertPending path).removePeerDeleted path).insertLastPublished path hash

def unmarkRemoteWrite : EchoGuard η := (guard.removePending path).forget path

def deleteMark : RemoteDeleteMark := if guard.peerDeleted path then .duplicate else .fresh

def markRemoteDelete : RemoteDeleteMark × EchoGuard η :=
  (guard.deleteMark path, (guard.forget path).insertPeerDeleted path)

def shouldSkipRemoval : Bool := guard.peerDeleted path

def shouldSkipLocal [DecidableEq η] : Bool :=
  guard.pending path || guard.lastPublished path = some hash

def recordLocalPublish : EchoGuard η :=
  (guard.removePeerDeleted path).insertLastPublished path hash

end EchoGuard

end Artel.Fs
