import Artel.Lib.Spares
import Artel.Registry.Authority
import Artel.Store.Filenames

namespace Artel

open Store

/-- A file under `attachments`: a payload under its kind, or one that is being written. -/
inductive AttachmentFile
  | bin (kind : String) (payload : Bytes)
  | tmp (kind : String) (counter : ℕ)
  deriving DecidableEq

/-- The directory `attachments` of the session's directory, if it is there. -/
structure Attic where
  attachments : Option (List AttachmentFile)
  tmpCounter : ℕ
  /-- Whether a `delete` of the session has returned `Ok`. -/
  removed : Bool

/-- Something in the session's directory that `remove_dir_all` comes across. -/
inductive DirEntry
  | log
  | metaJson
  | ticketsJson
  | workspaceTicket
  | attachment (file : AttachmentFile)
  | attachmentsDir
  deriving DecidableEq

def listAttachments (kindFilter : Option String) (disk : Disk) (g : Attic) : List (String × Bytes) :=
  if disk.dir.isNone then []
  else (g.attachments.getD []).filterMap fun file =>
    match file with
    | .tmp _ _ => none
    | .bin kind payload =>
      if kindFilter.any (· ≠ kind) then none
      else if MAX_FRAME_SIZE < payload.length then none
      else some (kind, payload)

namespace Fs

open Artel.Fiber

abbrev Steps (α : Type) := Fiber (World × Attic) Env Label α

def setDir (dir : Option SessionDir) (w : World × Attic) : World × Attic :=
  ({ w.1 with disk := { w.1.disk with dir := dir } }, w.2)

def setAttachments (files : Option (List AttachmentFile)) (w : World × Attic) : World × Attic :=
  (w.1, { w.2 with attachments := files })

def fsStep {α : Type} (l : Label) (f : World × Attic → Except IoError α × (World × Attic)) :
    Steps (Except IoError α) :=
  once l fun e w =>
    match e.fault with
    | some (err, _) => (.error err, w)
    | none => f w

def mkdirAttachments (w : World × Attic) : Except IoError Unit × (World × Attic) :=
  if w.1.disk.dir.isNone then (.error .notFound, w)
  else if w.2.attachments.isSome then (.ok (), w)
  else (.ok (), setAttachments (some []) w)

def mkdirSession (w : World × Attic) : Except IoError Unit × (World × Attic) :=
  if w.1.disk.dir.isSome then (.ok (), w) else (.ok (), setDir (some .empty) w)

def needAttachments (w : World × Attic) : Except IoError Unit × (World × Attic) :=
  (if w.2.attachments.isSome then .ok () else .error .notFound, w)

def needSession (w : World × Attic) : Except IoError Unit × (World × Attic) :=
  (if w.1.disk.dir.isSome then .ok () else .error .notFound, w)

/-- A file of `attachments` is opened with `create_new`, under a name of its own. -/
def openTmp (kind : String) (w : World × Attic) : Except IoError ℕ × (World × Attic) :=
  let w' := (w.1, { w.2 with tmpCounter := w.2.tmpCounter + 1 })
  match w.2.attachments with
  | none => (.error .notFound, w')
  | some files => (.ok w.2.tmpCounter, setAttachments (some (files ++ [.tmp kind w.2.tmpCounter])) w')

def needTmp (kind : String) (counter : ℕ) (w : World × Attic) : Except IoError Unit × (World × Attic) :=
  (if .tmp kind counter ∈ w.2.attachments.getD [] then .ok () else .error .notFound, w)

def isBin (kind : String) : AttachmentFile → Bool
  | .bin k _ => k = kind
  | .tmp _ _ => false

def renameTmp (kind : String) (counter : ℕ) (payload : Bytes) (w : World × Attic) :
    Except IoError Unit × (World × Attic) :=
  match w.2.attachments with
  | none => (.error .notFound, w)
  | some files =>
    if .tmp kind counter ∈ files then
      let rest := (files.erase (.tmp kind counter)).filter fun f => !isBin kind f
      (.ok (), setAttachments (some (rest ++ [.bin kind payload])) w)
    else (.error .notFound, w)

def unlinkAttachment (file : AttachmentFile → Bool) (w : World × Attic) :
    Except IoError Unit × (World × Attic) :=
  (.ok (), setAttachments (w.2.attachments.map fun files => files.filter fun f => !file f) w)

/-- `create_dir_all`: the directory above is made only if it is missing. -/
def createDirAll (l : Label) : Steps (Except IoError Unit) := do
  match ← fsStep l mkdirAttachments with
  | .ok _ => return .ok ()
  | .error .notFound =>
    match ← fsStep l mkdirSession with
    | .error e => return .error e
    | .ok _ => fsStep l mkdirAttachments
  | .error e => return .error e

def ensureDir (l : Label) : Steps (Except IoError Unit) := do
  match ← fsStep l needAttachments with
  | .ok _ => return .ok ()
  | .error .notFound =>
    match ← createDirAll l with
    | .error e => return .error e
    | .ok _ =>
      -- the mode, then the sync of the directory above
      match ← fsStep l needAttachments with
      | .error e => return .error e
      | .ok _ => fsStep l needSession
  | .error e => return .error e

/-- The temporary name is renamed to the payload's, or cleared away on failure. -/
def writeAttachment (l : Label) (kind : String) (payload : Bytes) : Steps (Except IoError Unit) := do
  match ← fsStep l (openTmp kind) with
  | .error e => return .error e
  | .ok counter =>
    let discard (e : IoError) : Steps (Except IoError Unit) := do
      let _ ← fsStep l (unlinkAttachment fun f => f = .tmp kind counter)
      return .error e
    match ← fsStep l (needTmp kind counter) with
    | .error e => discard e
    | .ok _ =>
      match ← fsStep l (renameTmp kind counter payload) with
      | .error e => discard e
      | .ok _ =>
        match ← fsStep l needAttachments with
        | .error e => discard e
        | .ok _ => return .ok ()

/-- Whether the session was known, once the payload is stored. -/
def putAttachment (l : Label) (kind : String) (payload : Bytes) : Steps (Except IoError Bool) := do
  if MAX_FRAME_SIZE < payload.length then return .error .invalidData
  else if MAX_KIND_LEN < kind.utf8ByteSize then return .error .invalidData
  else if kind.isEmpty then return .error .invalidData
  else
    match ← fsStep l fun w => (.ok w.1.disk.dir.isSome, w) with
    | .error _ => return .ok false
    | .ok false => return .ok false
    | .ok true =>
      match ← ensureDir l with
      | .error e => return .error e
      | .ok _ =>
        match ← writeAttachment l kind payload with
        | .error e => return .error e
        | .ok _ => return .ok true

def deleteAttachment (l : Label) (kind : String) : Steps (Except IoError Unit) :=
  fsStep l (unlinkAttachment (isBin kind))

/-- An entry goes; a directory goes only if it is empty. -/
def unlink (entry : DirEntry) (w : World × Attic) : Except IoError Unit × (World × Attic) :=
  match entry with
  | .log => (.ok (), setDir (w.1.disk.dir.map fun dir => { dir with log := none }) w)
  | .metaJson => (.ok (), setDir (w.1.disk.dir.map fun dir => { dir with metaJson := none }) w)
  | .ticketsJson => (.ok (), setDir (w.1.disk.dir.map fun dir => { dir with ticketsJson := none }) w)
  | .workspaceTicket =>
    (.ok (), setDir (w.1.disk.dir.map fun dir => { dir with workspaceTicket := none }) w)
  | .attachment file => unlinkAttachment (fun f => f = file) w
  | .attachmentsDir =>
    match w.2.attachments with
    | some (_ :: _) => (.error .other, w)
    | _ => (.ok (), setAttachments none w)

def noteRemoved (w : World × Attic) : World × Attic := (w.1, { w.2 with removed := true })

/-- The directory itself, at the end; a directory that is not there is fine. -/
def rmdirSession (w : World × Attic) : Except IoError Unit × (World × Attic) :=
  match w.1.disk.dir with
  | none => (.ok (), noteRemoved w)
  | some dir =>
    if dir = .empty ∧ w.2.attachments = none then (.ok (), noteRemoved (setDir none w))
    else (.error .other, w)

/-- The entries in the order in which the directory gives them, then the directory. -/
def removeEntries (l : Label) : List DirEntry → Steps (Except IoError Unit)
  | [] => fsStep l rmdirSession
  | entry :: rest => do
    match ← fsStep l (unlink entry) with
    | .error e => return .error e
    | .ok _ => removeEntries l rest

def delete (l : Label) (order : List DirEntry) : Steps (Except IoError Unit) := do
  match ← fsStep l fun w =>
    if w.1.disk.dir.isNone then (.ok true, noteRemoved w) else (.ok false, w) with
  | .error e => return .error e
  | .ok true => return .ok ()
  | .ok false => removeEntries l order

end Fs

namespace Registry

open Artel.Fiber Fs

variable (id : SessionId)

/-- The lock is held over the store's existence check and its writes. -/
def registerAttachment (me : ℕ) (kind : String) (payload : Bytes) : Steps Outcome := do
  match ← beside lookup with
  | none => return .error (.unknownSession id)
  | some h =>
    let _ ← beside (lock me h)
    let result ← putAttachment (.write h) kind payload
    beside (unlock h)
    match result with
    | .error e => return .error (.storage e)
    | .ok false => return .error (.unknownSession id)
    | .ok true => return .ok .done

/-- Without a session there is no lock to take. -/
def forgetAttachment (me : ℕ) (kind : String) : Steps Outcome := do
  match ← beside lookup with
  | none =>
    match ← deleteAttachment .forward kind with
    | .error e => return .error (.storage e)
    | .ok _ => return .ok .done
  | some h =>
    let _ ← beside (lock me h)
    let result ← deleteAttachment (.write h) kind
    beside (unlock h)
    match result with
    | .error e => return .error (.storage e)
    | .ok _ => return .ok .done

/-- A write of the members that fails leaves any file, but makes no directory. -/
def removeMemberFile (l : Label) (peer : PeerId) : Steps (Except IoError Unit) :=
  once l fun e w =>
    match e.fault with
    | some (err, disk) => (.error err, setDir (w.1.disk.dir.map fun dir => disk.dir.getD dir) w)
    | none =>
      ((Store.removeMember peer w.1.disk).1, setDir (Store.removeMember peer w.1.disk).2.dir w)

/-- `leave`, with the deletion of the directory step by step. -/
def leaveBySteps (me : ℕ) (peer : PeerId) (order : List DirEntry) : Steps Outcome := do
  match ← beside lookup with
  | none => return .error (.unknownSession id)
  | some h =>
    let s ← beside (lock me h)
    if peer ∉ s.members then
      beside (unlock h)
      return .error (.notMember id)
    else
      let dropSession := peer = s.host ∨ s.kind = .Remote
      match ← (if dropSession then Fs.delete (.write h) order else removeMemberFile (.write h) peer) with
      | .error e =>
        beside (unlock h)
        return .error (.storage e)
      | .ok _ =>
        beside (update h fun s => { s with members := s.members.erase peer })
        beside (emit h (if dropSession then .sessionClosed else .peerLeft peer))
        beside (unlock h)
        if dropSession then
          beside (unpublishAs (.unpublish h))
          beside (forget h)
          return .ok .done
        else return .ok .done

def hostClosedBySteps (me : ℕ) (order : List DirEntry) : Steps Outcome := do
  match ← beside lookup with
  | none => return .ok .done
  | some h =>
    let s ← beside (lock me h)
    if s.kind ≠ .Remote then
      beside (unlock h)
      return .ok .done
    else
      match ← Fs.delete (.write h) order with
      | .error e =>
        beside (unlock h)
        return .error (.storage e)
      | .ok _ =>
        beside (unlock h)
        beside (unpublishAs (.unpublish h))
        beside (emit h .sessionClosed)
        beside (forget h)
        return .ok .done

/-- The session's lock is not taken here. -/
def rollbackBySteps (h : Handle) (order : List DirEntry) : Steps Unit := do
  beside (unpublishAs (.rollback h))
  let _ ← Fs.delete (.rollbackDelete h) order
  return ()

/-- A join after its claim of the mirror `h`. -/
def driveBySteps (me : ℕ) (h : Handle) (order : List DirEntry) : Steps Outcome := do
  let _ ← beside (lock me h)
  beside (unlock h)
  match ← beside (joinSession h) with
  | some err =>
    rollbackBySteps h order
    beside (finish h false)
    return .error (.internal err)
  | none =>
    beside (finish h true)
    return .ok (.joined h none)

end Registry

/-- The calls that attach something to a session, and those that remove it. -/
inductive AtticCall
  | register (kind : String) (payload : Bytes)
  | forget (kind : String)
  | leave (peer : PeerId) (order : List DirEntry)
  | hostClosedSession (order : List DirEntry)
  | drive (h : Handle) (order : List DirEntry)

def AtticCall.body (id : SessionId) (me : ℕ) : AtticCall → Fs.Steps Outcome
  | .register kind payload => Registry.registerAttachment id me kind payload
  | .forget kind => Registry.forgetAttachment me kind
  | .leave peer order => Registry.leaveBySteps id me peer order
  | .hostClosedSession order => Registry.hostClosedBySteps me order
  | .drive h order => Registry.driveBySteps me h order

abbrev runAttic (id : SessionId) (w : World × Attic) (ms : List (Move AtticCall Env)) :
    Pool AtticCall (World × Attic) Env Label Outcome :=
  Pool.run (AtticCall.body id) ⟨w, []⟩ ms

end Artel
