import Artel.Fs.EchoGuard
import Artel.Fs.Progress
import Artel.Fs.Scan

namespace Artel.Fs

inductive Direction
  | outgoing
  | incoming
  deriving DecidableEq

inductive WorkspaceEvent
  | skippedTooLarge (path : Path) (size : ℕ)
  | skippedExcluded (path : Path) (direction : Direction)
  | skippedReadOnly (path : Path) (direction : Direction)
  | peerWrote (path : Path)
  | peerDeleted (path : Path)
  | invalidKey (reason : InvalidKey)
  | writeFailed (path : Path)
  deriving DecidableEq

/-- A workspace's entries are written by peers, whose ids are their authors. -/
abbrev Entry (η : Type) := Replica.Entry (FixedBytes 32) η

def contentLen {η : Type} (entry : Entry η) : ℕ := entry.content.elim 0 (·.len)

/-- Settings, process, the complete blobs, and the calls that fail without a reason. -/
structure Site (η : Type) where
  settings : Settings η
  processId : ℕ
  blob : η → Option Bytes
  fails : FsOp → Bool

/-- The tree with the calls made on it, and what the applier keeps in memory. -/
structure ApplierState (η : Type) where
  disk : Disk
  ops : List FsOp
  guard : EchoGuard η
  /-- The paths whose release from the guard is scheduled. -/
  timers : List Path
  trackers : TransferTrackers η
  tempSeq : ℕ
  events : List WorkspaceEvent

inductive ApplyOutcome
  | applied
  | notReady
  | failed
  deriving DecidableEq

/-- The size of the file that a key names; a file cannot be named as a directory. -/
def KeyPath.size (path : KeyPath) (disk : Disk) : Option ℕ :=
  if path.asDir then none else disk.fileSize path.parts

def KeyPath.check {η : Type} (path : KeyPath) (settings : Settings η) (disk : Disk) :
    FilterDecision :=
  settings.filter.check disk.isSymlink path.parts.rel (path.size disk)

def incomingSkip {η : Type} (settings : Settings η) (disk : Disk) (path : KeyPath) (len : ℕ) :
    Option (List WorkspaceEvent) :=
  match path.check settings disk with
  | .skip (.tooLarge size) => some [.skippedTooLarge path.parts size]
  | .skip .excluded => some [.skippedExcluded path.parts .incoming]
  | .skip .hardcoded | .skip .symlink => some []
  | .included =>
    if settings.filter.maxFileSize.any (· < len) then some [.skippedTooLarge path.parts len]
    else if settings.rules.modeFor settings.filter.unicode path.parts.rel = .readOnly then
      some [.skippedReadOnly path.parts .incoming]
    else none

theorem incomingSkip_eq_none {η : Type} {settings : Settings η} {disk : Disk} {path : KeyPath}
    {len : ℕ} :
    incomingSkip settings disk path len = none ↔
      path.check settings disk = .included ∧
      (∀ cap, settings.filter.maxFileSize = some cap → len ≤ cap) ∧
      settings.rules.modeFor settings.filter.unicode path.parts.rel ≠ .readOnly := by
  unfold incomingSkip
  split <;> rename_i hcheck <;> simp only [hcheck]
  · simp
  · simp
  · simp
  · simp
  · cases settings.filter.maxFileSize with
    | none => simp
    | some cap =>
      by_cases hlen : cap < len
      · simp [Option.any, hlen, Nat.not_le.mpr hlen]
      · simp [Option.any, hlen, Nat.not_lt.mp hlen]

def applyTempPath (processId seq : ℕ) (path : Path) : Path :=
  path.dropLast ++ [Signing.ascii ['.', 'a', 'r', 't', 'e', 'l', '-', 'f', 's', '-', 't', 'm', 'p',
      '-'] ++ Signing.ascii (Nat.toDigits 10 processId) ++ Signing.ascii ['-'] ++
    Signing.ascii (Nat.toDigits 10 seq) ++ Signing.ascii ['-'] ++ path.getLastD [] ++
    Signing.ascii ['.', 't', 'm', 'p']]

namespace ApplierState

variable {η : Type} (site : Site η) (state : ApplierState η)

def attempt (fails : Bool) (op : FsOp) : Bool × ApplierState η :=
  match if fails then none else op.perform state.disk with
  | some disk => (true, { state with disk, ops := state.ops ++ [op] })
  | none => (false, { state with ops := state.ops ++ [op] })

def emit (events : List WorkspaceEvent) : ApplierState η :=
  { state with events := state.events ++ events }

/-- The directories below `above`; the first that cannot be made ends it. -/
def createDirAll (above : Path) : List Bytes → ApplierState η → ApplierState η
  | [], state => state
  | name :: names, state =>
    let dir := above ++ [name]
    if state.disk.isDir dir then createDirAll dir names state
    else
      match state.attempt (site.fails (.createDir dir)) (.createDir dir) with
      | (true, state) => createDirAll dir names state
      | (false, state) => state

def removeTemp (temp : Path) : ApplierState η :=
  (state.attempt (site.fails (.remove temp)) (.remove temp)).2

def applyEntryStreaming (hash : η) (path : KeyPath) : ApplyOutcome × ApplierState η :=
  match site.blob hash with
  | none => (.notReady, state)
  | some bytes =>
    let state := createDirAll site [] path.parts.dropLast state
    let temp := applyTempPath site.processId state.tempSeq path.parts
    let state := { state with tempSeq := state.tempSeq + 1 }
    match state.attempt (site.fails (.write temp bytes)) (.write temp bytes) with
    | (false, state) => (.failed, state.removeTemp site temp)
    | (true, state) =>
      let state := { state with guard := state.guard.markRemoteWrite path.parts hash }
      let rename := FsOp.rename temp path.parts
      match state.attempt (path.asDir || site.fails rename) rename with
      | (true, state) => (.applied, state)
      | (false, state) =>
        let state := { state with guard := state.guard.unmarkRemoteWrite path.parts }
        (.failed, state.removeTemp site temp)

def supersede [DecidableEq η] (path : Path) (keep : Option η) : ApplierState η :=
  { state with trackers := state.trackers.supersede path keep }

def unlink (path : KeyPath) : ApplierState η :=
  let remove := FsOp.remove path.parts
  (state.attempt (path.asDir || site.fails remove) remove).2.emit [.peerDeleted path.parts]

/-- Nothing comes between the two looks at the file, so it is not spared. -/
def applyTombstone (path : KeyPath) : ApplierState η :=
  match state.guard.markRemoteDelete path.parts with
  | (.duplicate, guard) => { state with guard }
  | (.fresh, guard) => { state with guard }.unlink site path

def releaseAfter (path : Path) : ApplierState η := { state with timers := state.timers ++ [path] }

section

variable [DecidableEq η]

/-- Whether the entry waits for its blob. -/
def handleEntry (entry : Entry η) : Bool × ApplierState η :=
  match keyToPath site.settings.filter.unicode entry.key with
  | .error reason => (false, state.emit [.invalidKey reason])
  | .ok path =>
    match incomingSkip site.settings state.disk path (contentLen entry) with
    | some events => (false, (state.supersede path.parts none).emit events)
    | none =>
      match entry.content with
      | none => (false, (state.supersede path.parts none).applyTombstone site path)
      | some content =>
        match state.applyEntryStreaming site content.hash path with
        | (.applied, state) =>
          let state := (state.releaseAfter path.parts).supersede path.parts (some content.hash)
          (false, { state with trackers := state.trackers.finish content.hash }.emit
            [.peerWrote path.parts])
        | (.notReady, state) =>
          (true, { state with trackers := state.trackers.track content.hash path.parts })
        | (.failed, state) =>
          (false, (state.supersede path.parts none).emit [.writeFailed path.parts])

/-- The entries of the paths that wait for the blob, or every entry with it if none does. -/
def readyEntries (doc : Replica (FixedBytes 32) η) (hash : η) : List (Entry η) :=
  let isReady := fun entry : Entry η => entry.content.any (·.hash = hash)
  match state.trackers.trackedPaths hash with
  | [] => doc.entries.filter isReady
  | tracked => tracked.filterMap fun path =>
    (pathToKey site.settings.filter.unicode path.rel).toOption.bind fun key =>
      (doc.latest key).filter isReady

def handleEntries (entries : List (Entry η)) : Bool × ApplierState η :=
  entries.foldl
    (fun (pending, state) entry =>
      let (waits, state) := state.handleEntry site entry
      (pending || waits, state))
    (false, state)

def handleContentReady (doc : Replica (FixedBytes 32) η) (hash : η) : ApplierState η :=
  match state.handleEntries site (state.readyEntries site doc hash) with
  | (true, state) => state
  | (false, state) => { state with trackers := state.trackers.finish hash }

def diskMatches (disk : Disk) (path : KeyPath) (entry : Entry η) : Bool :=
  match entry.content with
  | none => disk path.parts = none && !disk.blocked path.parts
  | some content => path.size disk = some content.len

def catchUpEntry (entry : Entry η) : ApplierState η :=
  match keyToPath site.settings.filter.unicode entry.key with
  | .error _ => state
  | .ok path =>
    if diskMatches state.disk path entry then state else (state.handleEntry site entry).2

def catchUp (doc : Replica (FixedBytes 32) η) : ApplierState η :=
  doc.latestPerKey.foldl (fun state entry => state.catchUpEntry site entry) state

end

/-- As an entry is handled, but what is not ready is left to the applier. -/
def exportEntry (entry : Entry η) : ApplierState η :=
  match keyToPath site.settings.filter.unicode entry.key with
  | .error reason => state.emit [.invalidKey reason]
  | .ok path =>
    match incomingSkip site.settings state.disk path (contentLen entry) with
    | some events => state.emit events
    | none =>
      match entry.content with
      | none =>
        let guard := (state.guard.markRemoteDelete path.parts).2
        { state with guard }.unlink site path
      | some content =>
        match state.applyEntryStreaming site content.hash path with
        | (.applied, state) => (state.releaseAfter path.parts).emit [.peerWrote path.parts]
        | (.notReady, state) => state
        | (.failed, state) => state.emit [.writeFailed path.parts]

def bulkExport (doc : Replica (FixedBytes 32) η) : ApplierState η :=
  doc.latestPerKey.foldl (fun state entry => state.exportEntry site entry) state

end ApplierState

namespace Sample

open Workspace.Sample

def site : Site Bytes := ⟨settings .readWrite, 1, some, fun _ => false⟩

def blank : ApplierState Bytes := ⟨fun _ => none, [], .new, [], .new, 0, []⟩

def fileEntry (author : UInt8) (name : Bytes) (b : UInt8) (timestamp : ℕ) : Entry Bytes :=
  ⟨(endpoint author).bytes, KEY_PREFIX ++ name, some ⟨[b], 1, Nat.one_pos⟩, timestamp⟩

end Sample

end Artel.Fs
