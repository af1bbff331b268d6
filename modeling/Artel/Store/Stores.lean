import Mathlib.Data.Finmap
import Artel.Store.Filenames
import Artel.Store.Fs

namespace Artel.Store

/-- The calls of the `SessionStore` trait that change a store or ask for an epoch floor. -/
inductive StoreCall
  | create (r : SessionRecord)
  | append (id : SessionId) (m : SessionMessage)
  | bumpHostEpoch (id : SessionId) (epoch : UInt64)
  | epochFloor (id : SessionId)
  | putTickets (id : SessionId) (tickets : List TicketEntry)
  | putWorkspaceTicket (id : SessionId) (envelope : Bytes)
  | addMember (id : SessionId) (peer : PeerId)
  | removeMember (id : SessionId) (peer : PeerId)
  | delete (id : SessionId)
  | putAttachment (id : SessionId) (kind : String) (payload : Bytes)
  | deleteAttachment (id : SessionId) (kind : String)

inductive StoreValue
  | done
  | epoch (floor : UInt64)
  /-- Whether the session of an attachment is known. -/
  | known (b : Bool)
  deriving DecidableEq

abbrev StoreResult := Except IoError StoreValue

structure StoredAttachment where
  session : SessionId
  kind : String
  payload : Bytes
  deriving DecidableEq

def answers {σ : Type} (step : StoreCall → σ → StoreResult × σ) :
    List StoreCall → σ → List StoreResult × σ
  | [], s => ([], s)
  | c :: calls, s =>
    let r := step c s
    let rest := answers step calls r.2
    (r.1 :: rest.1, rest.2)

structure SessionEntry where
  record : SessionRecord
  attachments : Finmap fun _ : String => Bytes

/-- The floors are a map of their own, which `delete` leaves alone. -/
structure MemoryStore where
  inner : Finmap fun _ : SessionId => SessionEntry
  epochFloors : Finmap fun _ : SessionId => UInt64

namespace MemoryStore

def empty : MemoryStore := ⟨∅, ∅⟩

def raiseEpochFloor (s : MemoryStore) (id : SessionId) (raiseTo : UInt64) : MemoryStore :=
  let floor := (s.epochFloors.lookup id).getD 0
  { s with epochFloors := s.epochFloors.insert id (if floor < raiseTo then raiseTo else floor) }

def getMut (s : MemoryStore) (id : SessionId) (f : SessionEntry → SessionEntry) :
    StoreResult × MemoryStore :=
  match s.inner.lookup id with
  | none => (.error .notFound, s)
  | some entry => (.ok .done, { s with inner := s.inner.insert id (f entry) })

def update (s : MemoryStore) (id : SessionId) (f : SessionRecord → SessionRecord) :
    StoreResult × MemoryStore :=
  s.getMut id fun entry => { entry with record := f entry.record }

def step : StoreCall → MemoryStore → StoreResult × MemoryStore
  | .create r, s =>
    let s := s.raiseEpochFloor r.id (r.hostEpoch + 1)
    (.ok .done, { s with inner := s.inner.insert r.id ⟨r, ∅⟩ })
  | .append id m, s => s.update id fun r => { r with head := max r.head m.seq, log := r.log ++ [m] }
  | .bumpHostEpoch id epoch, s =>
    -- the floor goes up before the session is looked for
    let s := s.raiseEpochFloor id (epoch + 1)
    (.ok .done, (s.update id fun r => { r with hostEpoch := epoch }).2)
  | .epochFloor id, s => (.ok (.epoch ((s.epochFloors.lookup id).getD 0)), s)
  | .putTickets id tickets, s => s.update id fun r => { r with tickets := tickets }
  | .putWorkspaceTicket id envelope, s =>
    if WORKSPACE_TICKET_ENVELOPE_MAX < envelope.length then (.error .invalidData, s)
    else s.update id fun r => { r with workspaceTicket := some envelope }
  | .addMember id peer, s => s.update id fun r => { r with members := insert peer r.members }
  | .removeMember id peer, s => s.update id fun r => { r with members := r.members.erase peer }
  | .delete id, s => (.ok .done, { s with inner := s.inner.erase id })
  | .putAttachment id kind payload, s =>
    match s.inner.lookup id with
    | none => (.ok (.known false), s)
    | some entry =>
      let entry := { entry with attachments := entry.attachments.insert kind payload }
      (.ok (.known true), { s with inner := s.inner.insert id entry })
  | .deleteAttachment id kind, s =>
    (.ok .done, (s.getMut id fun entry =>
      { entry with attachments := entry.attachments.erase kind }).2)

def loadAll (s : MemoryStore) : Multiset SessionRecord :=
  s.inner.keys.val.filterMap fun id => (s.inner.lookup id).map SessionEntry.record

def listAttachments (kindFilter : Option String) (s : MemoryStore) : Multiset StoredAttachment :=
  s.inner.keys.val.bind fun id =>
    match s.inner.lookup id with
    | none => 0
    | some entry =>
      entry.attachments.keys.val.filterMap fun kind =>
        if kindFilter.any (· ≠ kind) then none
        else (entry.attachments.lookup kind).map fun payload => ⟨id, kind, payload⟩

end MemoryStore

/-- A session's files, and the directory `attachments` by file name. -/
structure SessionFiles where
  dir : SessionDir
  attachments : Option (Finmap fun _ : Bytes => Bytes)

/-- The directories by their id, and the floor files beside them. -/
structure FsLogStore where
  dirs : Finmap fun _ : SessionId => SessionFiles
  epochFloors : Finmap fun _ : SessionId => UInt64

namespace FsLogStore

def empty : FsLogStore := ⟨∅, ∅⟩

def disk (s : FsLogStore) (id : SessionId) : Disk :=
  ⟨(s.dirs.lookup id).map SessionFiles.dir, s.epochFloors.lookup id⟩

/-- A session's files change and its attachments stay. -/
def setDisk (s : FsLogStore) (id : SessionId) (disk : Disk) : FsLogStore where
  dirs := match disk.dir with
    | none => s.dirs.erase id
    | some dir => s.dirs.insert id ⟨dir, (s.dirs.lookup id).bind SessionFiles.attachments⟩
  epochFloors := match disk.epochFloor with
    | none => s.epochFloors.erase id
    | some floor => s.epochFloors.insert id floor

def onDisk {α : Type} (s : FsLogStore) (id : SessionId) (op : Disk → IoResult α)
    (value : α → StoreValue) : StoreResult × FsLogStore :=
  let r := op (s.disk id)
  (r.1.map value, s.setDisk id r.2)

/-- The checks come before the session is looked for. -/
def putAttachment (s : FsLogStore) (id : SessionId) (kind : String) (payload : Bytes) :
    StoreResult × FsLogStore :=
  if MAX_FRAME_SIZE < payload.length then (.error .invalidData, s)
  else if MAX_KIND_LEN < (Signing.utf8 kind).length then (.error .invalidData, s)
  else if kind = "" then (.error .invalidData, s)
  else
    match s.dirs.lookup id with
    | none => (.ok (.known false), s)
    | some files =>
      let attachments := (files.attachments.getD ∅).insert (attachmentFilename kind) payload
      let files := { files with attachments := some attachments }
      (.ok (.known true), { s with dirs := s.dirs.insert id files })

def deleteAttachment (s : FsLogStore) (id : SessionId) (kind : String) : StoreResult × FsLogStore :=
  match s.dirs.lookup id with
  | none => (.ok .done, s)
  | some files =>
    let attachments := files.attachments.map fun a => a.erase (attachmentFilename kind)
    (.ok .done, { s with dirs := s.dirs.insert id { files with attachments := attachments } })

def step : StoreCall → FsLogStore → StoreResult × FsLogStore
  | .create r, s => s.onDisk r.id (Store.create r) fun _ => .done
  | .append id m, s => s.onDisk id (Store.append none m) fun _ => .done
  | .bumpHostEpoch id epoch, s => s.onDisk id (Store.bumpHostEpoch epoch) fun _ => .done
  | .epochFloor id, s => s.onDisk id Store.epochFloor .epoch
  | .putTickets id tickets, s => s.onDisk id (Store.putTickets tickets) fun _ => .done
  | .putWorkspaceTicket id envelope, s =>
    s.onDisk id (Store.putWorkspaceTicket envelope) fun _ => .done
  | .addMember id peer, s => s.onDisk id (Store.addMember peer) fun _ => .done
  | .removeMember id peer, s => s.onDisk id (Store.removeMember peer) fun _ => .done
  | .delete id, s => s.onDisk id Store.delete fun _ => .done
  | .putAttachment id kind payload, s => s.putAttachment id kind payload
  | .deleteAttachment id kind, s => s.deleteAttachment id kind

def loadAll (ed : Ed25519) (verify : Bool) (s : FsLogStore) : Multiset SessionRecord :=
  s.dirs.keys.val.filterMap fun id => (load ed id verify (s.disk id)).1.toOption

def listed (kindFilter : Option String) (id : SessionId) (name : Bytes) (payload : Bytes) :
    Option StoredAttachment :=
  if isAttachmentTmp name then none
  else
    match decodeAttachmentFilename name with
    | none => none
    | some kind =>
      if kindFilter.any (· ≠ kind) then none
      else if MAX_FRAME_SIZE < payload.length then none
      else some ⟨id, kind, payload⟩

def listAttachments (kindFilter : Option String) (s : FsLogStore) : Multiset StoredAttachment :=
  s.dirs.keys.val.bind fun id =>
    match (s.dirs.lookup id).bind SessionFiles.attachments with
    | none => 0
    | some files => files.keys.val.filterMap fun name =>
        (files.lookup name).bind (listed kindFilter id name)

end FsLogStore

/-- The names that are left in a directory `attachments` after the store was opened. -/
def sweepTmpFiles (names : List Bytes) : List Bytes := names.filter fun name => !isAttachmentTmp name

/-- Kinds are read back from their names, which are apart from each other's. -/
theorem attachment_names_apart {kind : String} (hkind : kind ≠ "") (pid : UInt32)
    (counter : UInt64) :
    decodeAttachmentFilename (attachmentFilename kind) = some kind ∧
      (∀ kind', kind' ≠ kind →
        toAsciiLowercase (attachmentFilename kind') ≠ toAsciiLowercase (attachmentFilename kind)) ∧
      isAttachmentTmp (uniqueTmpName (attachmentFilename kind) pid counter) = true ∧
      decodeAttachmentFilename (uniqueTmpName (attachmentFilename kind) pid counter) = none ∧
      isAttachmentTmp (attachmentFilename kind) = false ∧
      (∀ names, attachmentFilename kind ∈ names → attachmentFilename kind ∈ sweepTmpFiles names) ∧
      ∀ kindFilter id payload, FsLogStore.listed kindFilter id
        (uniqueTmpName (attachmentFilename kind) pid counter) payload = none := by
  have htmp := isAttachmentTmp_uniqueTmpName hkind pid counter
  have hfile := isAttachmentTmp_attachmentFilename kind
  refine ⟨decode_attachmentFilename kind, ?_, htmp, decode_uniqueTmpName _ pid counter, hfile, ?_, ?_⟩
  · intro kind' hne hlower
    rw [toAsciiLowercase_attachmentFilename, toAsciiLowercase_attachmentFilename] at hlower
    exact hne (attachmentFilename_injective hlower)
  · intro names hmem
    apply List.mem_filter.mpr
    rw [hfile]
    exact ⟨hmem, rfl⟩
  · intro kindFilter id payload
    exact if_pos htmp

theorem attachment_names_apart_ticket : isAttachmentTmp
    (uniqueTmpName (attachmentFilename "ticket") 42 7) = true :=
  (attachment_names_apart (by decide) 42 7).2.2.1

end Artel.Store
