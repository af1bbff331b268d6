import Mathlib.Data.Finset.Basic
import Artel.Store.Log

namespace Artel

inductive TicketStatus
  | active
  | revoked
  deriving DecidableEq

structure TicketEntry where
  ticketId : TicketId
  grantedCap : Capability
  expiryMs : UInt64
  issuedAtMs : UInt64
  status : TicketStatus
  usedBy : List PeerId
  deriving DecidableEq

namespace Store

inductive SessionKind
  | Local
  | Remote
  deriving DecidableEq

structure SessionRecord where
  id : SessionId
  host : PeerId
  members : Finset PeerId
  head : Seq
  log : List SessionMessage
  kind : SessionKind
  hostEpoch : UInt64
  tickets : List TicketEntry
  workspaceTicket : Option Bytes
  deriving DecidableEq

structure Meta where
  version : ℕ
  host : PeerId
  members : Finset PeerId
  head : Seq
  kind : SessionKind
  hostEpoch : UInt64
  deriving DecidableEq

structure TicketsFile where
  version : ℕ
  entries : List TicketEntry
  deriving DecidableEq

def META_VERSION : ℕ := 3

def TICKETS_VERSION : ℕ := 1

def Meta.fromRecord (r : SessionRecord) : Meta :=
  ⟨META_VERSION, r.host, r.members, r.head, r.kind, r.hostEpoch⟩

/-- One session's directory; a file that is not there is `none`. -/
structure SessionDir where
  log : Option Bytes
  metaJson : Option Meta
  ticketsJson : Option TicketsFile
  workspaceTicket : Option Bytes
  deriving DecidableEq

/-- One session id. The floor is outside the directory, which `delete` removes. -/
structure Disk where
  dir : Option SessionDir
  epochFloor : Option UInt64
  deriving DecidableEq

/-- A result, and the disk also when the result is an error. -/
abbrev IoResult (α : Type) := Except IoError α × Disk

def SessionDir.empty : SessionDir := ⟨none, none, none, none⟩

/-- The floor before the call, and the file raised to at least `raiseTo`. -/
def readAndRaiseEpochFloor (floor : Option UInt64) (raiseTo : UInt64) : UInt64 × Option UInt64 :=
  let current := floor.getD 0
  (current, if current < raiseTo then some raiseTo else floor)

def WORKSPACE_TICKET_ENVELOPE_MAX : ℕ := 64 * 1024 - 64

def writeWorkspaceTicket (envelope : Bytes) (file : Option Bytes) :
    Except IoError Unit × Option Bytes :=
  if WORKSPACE_TICKET_ENVELOPE_MAX < envelope.length then (.error .invalidData, file)
  else (.ok (), some envelope)

def appendAll : List SessionMessage → Bytes → Except IoError Unit × Bytes
  | [], file => (.ok (), file)
  | m :: rest, file =>
    match appendLog none m file with
    | (.error e, file) => (.error e, file)
    | (.ok _, file) => appendAll rest file

/-- The log is kept, the meta is fresh, and other sidecars are left. -/
def create (r : SessionRecord) (disk : Disk) : IoResult Unit :=
  let old := disk.dir.getD SessionDir.empty
  let floor := (readAndRaiseEpochFloor disk.epochFloor (r.hostEpoch + 1)).2
  let dir := { old with
    log := some (old.log.getD [])
    metaJson := some (Meta.fromRecord r)
    ticketsJson :=
      if r.tickets.isEmpty then old.ticketsJson else some ⟨TICKETS_VERSION, r.tickets⟩ }
  let ticket : Except IoError Unit × Option Bytes := match r.workspaceTicket with
    | none => (.ok (), dir.workspaceTicket)
    | some envelope => writeWorkspaceTicket envelope dir.workspaceTicket
  let dir := { dir with workspaceTicket := ticket.2 }
  -- an envelope over the limit stops the call with the meta already written
  match ticket.1 with
  | .error e => (.error e, ⟨some dir, floor⟩)
  | .ok _ =>
    let log := appendAll r.log (old.log.getD [])
    (log.1, ⟨some { dir with log := some log.2 }, floor⟩)

/-- Before the rename the old file stands, after it the new one. -/
inductive WriteFault
  | beforeRename
  | afterRename
  deriving DecidableEq

inductive AppendFault
  | log (written : ℕ)
  | readMeta
  | writeMeta (fault : WriteFault)
  deriving DecidableEq

def AppendFault.ofLog : Option AppendFault → Option ℕ
  | some (.log k) => some k
  | _ => none

/-- Raise the head in the meta, never lower it. -/
def raiseHead (fault : Option AppendFault) (seq : Seq) (dir : SessionDir) :
    Except IoError Unit × SessionDir :=
  match dir.metaJson with
  | none => (.error .notFound, dir)
  | some doc =>
    let raised := { dir with metaJson := some { doc with head := max doc.head seq } }
    match fault with
    | some .readMeta => (.error .other, dir)
    | some (.writeMeta .beforeRename) => (.error .other, dir)
    | some (.writeMeta .afterRename) => (.error .other, raised)
    | _ => (.ok (), raised)

/-- The log frame first, then the head in the meta. -/
def append (fault : Option AppendFault) (m : SessionMessage) (disk : Disk) : IoResult Unit :=
  match disk.dir with
  | none => (.error .notFound, disk)
  | some dir =>
    match appendLog (AppendFault.ofLog fault) m (dir.log.getD []) with
    | (.error e, file) => (.error e, { disk with dir := some { dir with log := some file } })
    | (.ok _, file) =>
      -- a failure from here on leaves the frame in the log
      let raised := raiseHead fault m.seq { dir with log := some file }
      (raised.1, { disk with dir := some raised.2 })

/-- A directory without a meta is unknown to this call, which then does nothing. -/
def bumpHostEpoch (epoch : UInt64) (disk : Disk) : IoResult Unit :=
  match disk.dir with
  | none => (.ok (), disk)
  | some dir =>
    match dir.metaJson with
    | none => (.ok (), disk)
    | some doc =>
      (.ok (), ⟨some { dir with metaJson := some { doc with hostEpoch := epoch } },
        (readAndRaiseEpochFloor disk.epochFloor (epoch + 1)).2⟩)

def epochFloor (disk : Disk) : IoResult UInt64 :=
  let floor := readAndRaiseEpochFloor disk.epochFloor 0
  (.ok floor.1, { disk with epochFloor := floor.2 })

def putTickets (tickets : List TicketEntry) (disk : Disk) : IoResult Unit :=
  match disk.dir with
  | none => (.error .notFound, disk)
  | some dir =>
    (.ok (), { disk with dir := some { dir with ticketsJson := some ⟨TICKETS_VERSION, tickets⟩ } })

def putWorkspaceTicket (envelope : Bytes) (disk : Disk) : IoResult Unit :=
  match disk.dir with
  | none => (.error .notFound, disk)
  | some dir =>
    let ticket := writeWorkspaceTicket envelope dir.workspaceTicket
    (ticket.1, { disk with dir := some { dir with workspaceTicket := ticket.2 } })

def updateMembers (f : Finset PeerId → Finset PeerId) (disk : Disk) : IoResult Unit :=
  match disk.dir with
  | none => (.error .notFound, disk)
  | some dir =>
    match dir.metaJson with
    | none => (.error .notFound, disk)
    | some doc =>
      let raised := { dir with metaJson := some { doc with members := f doc.members } }
      (.ok (), { disk with dir := some raised })

def addMember (peer : PeerId) (disk : Disk) : IoResult Unit := updateMembers (insert peer) disk

def removeMember (peer : PeerId) (disk : Disk) : IoResult Unit :=
  updateMembers (fun members => members.erase peer) disk

/-- `remove_dir_all`; a directory that is not there is fine. -/
def delete (disk : Disk) : IoResult Unit := (.ok (), { disk with dir := none })

def logTail (log : List SessionMessage) : Seq := (log.map SessionMessage.seq).foldl max Seq.ZERO

/-- A log file that is not there is an empty log. -/
def loadLog (ed : Ed25519) (id : SessionId) (verify : Bool) :
    Option Bytes → List SessionMessage × Option Bytes
  | none => ([], none)
  | some file => ((readLog ed id verify file).1, some (readLog ed id verify file).2)

/-- A ledger of another version is moved away and the session loads with an empty one. -/
def loadTickets : Option TicketsFile → List TicketEntry × Option TicketsFile
  | none => ([], none)
  | some file => if file.version = TICKETS_VERSION then (file.entries, some file) else ([], none)

/-- The record of a directory, and the directory as the load leaves it. -/
def loadOne (ed : Ed25519) (id : SessionId) (verify : Bool) (dir : SessionDir) :
    Except IoError SessionRecord × SessionDir :=
  match dir.metaJson with
  | none => (.error .notFound, dir)
  | some doc =>
    if doc.version ≠ META_VERSION then (.error .invalidData, dir)
    else
      let log := loadLog ed id verify dir.log
      let tickets := loadTickets dir.ticketsJson
      let dir := { dir with log := log.2, ticketsJson := tickets.2 }
      if ∃ envelope ∈ dir.workspaceTicket, WORKSPACE_TICKET_ENVELOPE_MAX < envelope.length then
        (.error .invalidData, dir)
      else
        -- the log may be ahead of the head that the meta has
        (.ok { id := id, host := doc.host, members := doc.members,
               head := max doc.head (logTail log.1), log := log.1, kind := doc.kind,
               hostEpoch := doc.hostEpoch, tickets := tickets.1,
               workspaceTicket := dir.workspaceTicket }, dir)

/-- The daemon's start reads one directory; the disk keeps what the load cut or moved. -/
def load (ed : Ed25519) (id : SessionId) (verify : Bool) (disk : Disk) : IoResult SessionRecord :=
  match disk.dir with
  | none => (.error .notFound, disk)
  | some dir =>
    let loaded := loadOne ed id verify dir
    (loaded.1, { disk with dir := some loaded.2 })

def Disk.logBytes (disk : Disk) : Bytes := (disk.dir.bind SessionDir.log).getD []

theorem foldl_max_ge (l : List Seq) (acc : Seq) :
    acc ≤ l.foldl max acc ∧ ∀ n ∈ l, n ≤ l.foldl max acc := by
  induction l generalizing acc with
  | nil => exact ⟨le_rfl, by simp⟩
  | cons n l ih =>
    obtain ⟨hacc, hl⟩ := ih (max acc n)
    refine ⟨(le_max_left acc n).trans hacc, fun k hk => ?_⟩
    obtain rfl | hk := List.mem_cons.mp hk
    · exact (le_max_right acc k).trans hacc
    · exact hl k hk

theorem seq_le_logTail (log : List SessionMessage) : ∀ m ∈ log, m.seq ≤ logTail log :=
  fun _ hm => (foldl_max_ge _ _).2 _ (List.mem_map_of_mem hm)

variable {disk : Disk}

theorem load_ok {ed : Ed25519} {id : SessionId} {verify : Bool} {r : SessionRecord}
    (h : (load ed id verify disk).1 = .ok r) :
    r.log = (readLog ed id verify disk.logBytes).1 ∧ ∀ m ∈ r.log, m.seq ≤ r.head := by
  unfold load at h
  split at h
  · cases h
  rename_i dir hdir
  have hbytes : disk.logBytes = dir.log.getD [] := by simp [Disk.logBytes, hdir]
  have hlog : (loadLog ed id verify dir.log).1 = (readLog ed id verify disk.logBytes).1 := by
    rw [hbytes]
    cases dir.log with
    | none => simp [loadLog, readLog, Frames.scan]
    | some file => rfl
  unfold loadOne at h
  split at h
  · cases h
  split at h
  · cases h
  dsimp only at h
  split at h
  · cases h
  · cases h
    refine ⟨hlog, fun m hm => ?_⟩
    exact (seq_le_logTail _ m hm).trans (le_max_right _ _)

variable (ed : Ed25519) (id : SessionId) (verify : Bool)

theorem loadLog_logBytes (log : Option Bytes) :
    (loadLog ed id verify log).2.getD [] =
      (log.getD []).take (Frames.scan MAX_FRAME_SIZE (log.getD [])).2 := by
  cases log with
  | none => simp [loadLog]
  | some file => rfl

theorem load_logBytes (disk : Disk) :
    (load ed id verify disk).2.logBytes = disk.logBytes ∨
      (load ed id verify disk).2.logBytes =
        disk.logBytes.take (Frames.scan MAX_FRAME_SIZE disk.logBytes).2 := by
  unfold load
  split
  · exact .inl rfl
  rename_i dir hdir
  have hcut := loadLog_logBytes ed id verify dir.log
  unfold loadOne
  split
  · left; simp [Disk.logBytes, hdir]
  · split
    · left; simp [Disk.logBytes, hdir]
    · right
      dsimp only
      split <;> simpa [Disk.logBytes, hdir] using hcut

@[simp] theorem putTickets_logBytes (tickets : List TicketEntry) (disk : Disk) :
    (putTickets tickets disk).2.logBytes = disk.logBytes := by
  unfold putTickets
  split <;> simp [Disk.logBytes, *]

@[simp] theorem bumpHostEpoch_logBytes (epoch : UInt64) (disk : Disk) :
    (bumpHostEpoch epoch disk).2.logBytes = disk.logBytes := by
  unfold bumpHostEpoch
  split
  · rfl
  · split <;> simp [Disk.logBytes, *]

@[simp] theorem updateMembers_logBytes (f : Finset PeerId → Finset PeerId) (disk : Disk) :
    (updateMembers f disk).2.logBytes = disk.logBytes := by
  unfold updateMembers
  split
  · rfl
  · split <;> simp [Disk.logBytes, *]

theorem create_logBytes (r : SessionRecord) (disk : Disk) (h : r.log = []) :
    (create r disk).2.logBytes = disk.logBytes := by
  unfold create
  dsimp only
  split <;> cases hd : disk.dir <;> simp [Disk.logBytes, SessionDir.empty, h, hd, appendAll]

theorem raiseHead_log (fault : Option AppendFault) (seq : Seq) (dir : SessionDir) :
    (raiseHead fault seq dir).2.log = dir.log := by
  unfold raiseHead
  split
  · rfl
  · split <;> rfl

theorem appendLog_cases (fault : Option ℕ) (m : SessionMessage) (file : Bytes) :
    (∃ e, appendLog fault m file = (.error e, file)) ∨
      ((encodeMessage m).length ≤ MAX_FRAME_SIZE ∧
        ((∃ e k, appendLog fault m file =
            (.error e, file ++ (Frames.frame (encodeMessage m)).take k)) ∨
          appendLog fault m file = (.ok (), file ++ Frames.frame (encodeMessage m)))) := by
  unfold appendLog
  split
  · exact .inl ⟨_, rfl⟩
  rename_i hsize
  right
  refine ⟨Nat.le_of_not_lt hsize, ?_⟩
  cases fault with
  | none => exact .inr rfl
  | some k => exact .inl ⟨_, k, rfl⟩

/-- A prefix of the frame is appended; the whole of it on success. -/
theorem append_logBytes (fault : Option AppendFault) (m : SessionMessage) (disk : Disk) :
    ((append fault m disk).1 ≠ .ok () ∧ (append fault m disk).2.logBytes = disk.logBytes) ∨
      ((encodeMessage m).length ≤ MAX_FRAME_SIZE ∧
        ∃ k, (append fault m disk).2.logBytes =
            disk.logBytes ++ (Frames.frame (encodeMessage m)).take k ∧
          ((append fault m disk).1 = .ok () → 4 + (encodeMessage m).length ≤ k)) := by
  unfold append
  split
  · left; simp
  rename_i dir hdir
  have hlog : disk.logBytes = dir.log.getD [] := by simp [Disk.logBytes, hdir]
  rw [hlog]
  obtain ⟨e, he⟩ | ⟨hsize, ⟨e, k, he⟩ | hok⟩ :=
    appendLog_cases (AppendFault.ofLog fault) m (dir.log.getD [])
  · left
    simp [he, Disk.logBytes]
  · right
    refine ⟨hsize, k, ?_⟩
    simp [he, Disk.logBytes]
  · right
    refine ⟨hsize, 4 + (encodeMessage m).length, ?_⟩
    rw [hok, List.take_of_length_le (by simp)]
    simp [Disk.logBytes, raiseHead_log]

theorem append_framed {ps : List Bytes} (fault : Option AppendFault)
    (m : SessionMessage) (h : Frames.Framed MAX_FRAME_SIZE disk.logBytes ps []) :
    (∃ e rest, (append fault m disk).1 = .error e ∧
        Frames.Framed MAX_FRAME_SIZE (append fault m disk).2.logBytes ps rest) ∨
      ((encodeMessage m).length ≤ MAX_FRAME_SIZE ∧
        Frames.Framed MAX_FRAME_SIZE (append fault m disk).2.logBytes (ps ++ [encodeMessage m])
          []) := by
  have herror : (append fault m disk).1 ≠ .ok () → ∃ e, (append fault m disk).1 = .error e := by
    cases (append fault m disk).1 with
    | error e => exact fun _ => ⟨e, rfl⟩
    | ok _ => exact fun hne => absurd rfl hne
  obtain ⟨hne, hsame⟩ | ⟨hsize, k, hlog, hok⟩ := append_logBytes fault m disk
  · obtain ⟨e, he⟩ := herror hne
    exact .inl ⟨e, [], he, by rwa [hsame]⟩
  rw [hlog]
  -- a failure behind the last byte still leaves a complete frame
  by_cases hk : 4 + (encodeMessage m).length ≤ k
  · right
    rw [List.take_of_length_le (by rwa [Frames.frame_length])]
    exact ⟨hsize, h.append _ hsize⟩
  · obtain ⟨e, he⟩ := herror fun heq => hk (hok heq)
    obtain ⟨rest, hf⟩ | hf := h.append_take (encodeMessage m) k hsize max_frame_lt
    · exact .inl ⟨e, rest, he, hf⟩
    · exact .inr ⟨hsize, hf⟩

variable {log : List SessionMessage}

theorem append_none {dir : SessionDir} {doc : Meta} {m : SessionMessage}
    (hdir : disk.dir = some dir) (hlog : dir.log = some (encodeLog log))
    (hdoc : dir.metaJson = some doc) (hsize : (encodeMessage m).length ≤ MAX_FRAME_SIZE) :
    append none m disk =
      (.ok (), { disk with dir := some { dir with
        log := some (encodeLog (log ++ [m]))
        metaJson := some { doc with head := max doc.head m.seq } } }) := by
  have hfits : ¬ MAX_FRAME_SIZE < (encodeMessage m).length := Nat.not_lt.mpr hsize
  simp [append, appendLog, raiseHead, AppendFault.ofLog, hdir, hlog, hdoc, hfits]

theorem append_oversize {dir : SessionDir} {file : Bytes} (m : SessionMessage)
    (hdir : disk.dir = some dir) (hlog : dir.log = some file)
    (hsize : MAX_FRAME_SIZE < (encodeMessage m).length) :
    append none m disk = (.error .invalidData, disk) := by
  obtain ⟨_, floor⟩ := disk
  obtain ⟨_, doc, tickets, envelope⟩ := dir
  cases hdir
  cases hlog
  simp [append, appendLog, hsize]

theorem loadOne_torn (dir : SessionDir) {doc : Meta}
    {tail : Bytes} (hlog : dir.log = some (encodeLog log ++ tail))
    (hdoc : dir.metaJson = some doc) (hversion : doc.version = META_VERSION)
    (hticket : ∀ envelope ∈ dir.workspaceTicket, envelope.length ≤ WORKSPACE_TICKET_ENVELOPE_MAX)
    (hsize : ∀ m ∈ log, (encodeMessage m).length ≤ MAX_FRAME_SIZE)
    (htorn : Frames.Torn MAX_FRAME_SIZE tail) :
    loadOne ed id verify dir =
      (.ok { id := id, host := doc.host, members := doc.members,
             head := max doc.head (logTail (readLog ed id verify (encodeLog log)).1),
             log := (readLog ed id verify (encodeLog log)).1, kind := doc.kind,
             hostEpoch := doc.hostEpoch, tickets := (loadTickets dir.ticketsJson).1,
             workspaceTicket := dir.workspaceTicket },
        { dir with
          log := some (encodeLog log)
          ticketsJson := (loadTickets dir.ticketsJson).2 }) := by
  have hwhole := framed_encodeLog log hsize
  have hframed : Frames.Framed MAX_FRAME_SIZE (encodeLog log ++ tail) (log.map encodeMessage) tail :=
    ⟨by rw [encodeLog], hwhole.length_le, htorn⟩
  have hread : readLog ed id verify (encodeLog log ++ tail) =
      ((readLog ed id verify (encodeLog log)).1, encodeLog log) := by
    rw [readLog_framed ed id verify hframed, readLog_framed ed id verify hwhole, encodeLog]
  simpa [loadOne, loadLog, hlog, hdoc, hversion, hread] using hticket

theorem loadOne_ok (dir : SessionDir) {doc : Meta}
    (hlog : dir.log = some (encodeLog log))
    (hdoc : dir.metaJson = some doc) (hversion : doc.version = META_VERSION)
    (hticket : ∀ envelope ∈ dir.workspaceTicket, envelope.length ≤ WORKSPACE_TICKET_ENVELOPE_MAX)
    (hsize : ∀ m ∈ log, (encodeMessage m).length ≤ MAX_FRAME_SIZE)
    (hv : verify = true → ∀ m ∈ log, Signing.verifyMessage ed id m m.signature = .ok ()) :
    loadOne ed id verify dir =
      (.ok { id := id, host := doc.host, members := doc.members, head := max doc.head (logTail log),
             log := log, kind := doc.kind, hostEpoch := doc.hostEpoch,
             tickets := (loadTickets dir.ticketsJson).1, workspaceTicket := dir.workspaceTicket },
        { dir with ticketsJson := (loadTickets dir.ticketsJson).2 }) := by
  have hlog' : dir.log = some (encodeLog log ++ []) := by rw [hlog, List.append_nil]
  rw [loadOne_torn ed id verify dir hlog' hdoc hversion hticket hsize (Frames.torn_nil _),
    readLog_encodeLog ed id verify log hsize hv, ← hlog]

end Store

end Artel
