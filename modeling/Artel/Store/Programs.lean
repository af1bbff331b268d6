import Artel.Lib.Medium
import Artel.Store.Writes

namespace Artel.Store

/-- What the store does to the disk in one go: a write, or the removal of the directory. -/
inductive DiskStep
  | write (w : FileWrite)
  | removeDirAll

def DiskStep.apply : DiskStep → Disk → Disk
  | .write w, disk => w.apply disk
  | .removeDirAll, disk => { disk with dir := none }

structure SessionDir.Part (dir dir' : SessionDir) : Prop where
  log : dir'.log = dir.log ∨ dir'.log = none
  metaJson : dir'.metaJson = dir.metaJson ∨ dir'.metaJson = none
  ticketsJson : dir'.ticketsJson = dir.ticketsJson ∨ dir'.ticketsJson = none
  workspaceTicket : dir'.workspaceTicket = dir.workspaceTicket ∨ dir'.workspaceTicket = none

/-- The bytes of a frame that a crash inside its append has got into the log. -/
def Disk.appendPart (m : SessionMessage) (k : ℕ) (disk : Disk) : Disk :=
  disk.modifyDir fun dir =>
    { dir with log := some (dir.log.getD [] ++ (Frames.frame (encodeMessage m)).take k) }

/-- An append can stop at any byte and a removal at any file; a rename is all or nothing. -/
def DiskStep.Torn : DiskStep → Disk → Disk → Prop
  | .write (.appendLog m), disk, disk' => ∃ k, disk' = disk.appendPart m k
  | .removeDirAll, disk, disk' =>
    ∃ dir dir', disk.dir = some dir ∧ dir.Part dir' ∧ disk' = { disk with dir := some dir' }
  | _, _, _ => False

def medium : Medium Disk DiskStep := ⟨DiskStep.apply, DiskStep.Torn⟩

def messageWrites (m : SessionMessage) (disk : Disk) : List FileWrite :=
  match disk.dir with
  | none => []
  | some dir =>
    if MAX_FRAME_SIZE < (encodeMessage m).length then []
    else
      .appendLog m :: (dir.metaJson.map fun doc =>
        .metaJson { doc with head := max doc.head m.seq }).toList

def ticketsWrites (tickets : List TicketEntry) (disk : Disk) : List FileWrite :=
  if disk.dir.isSome then [.ticketsJson ⟨TICKETS_VERSION, tickets⟩] else []

def envelopeWrites (envelope : Bytes) (disk : Disk) : List FileWrite :=
  if disk.dir.isSome ∧ envelope.length ≤ WORKSPACE_TICKET_ENVELOPE_MAX then
    [.workspaceTicket envelope]
  else []

def membersWrites (f : Finset PeerId → Finset PeerId) (disk : Disk) : List FileWrite :=
  ((disk.dir.bind SessionDir.metaJson).map fun doc =>
    .metaJson { doc with members := f doc.members }).toList

theorem writeAll_messageWrites (m : SessionMessage) {disk : Disk} {dir : SessionDir} {file : Bytes}
    (hdir : disk.dir = some dir) (hlog : dir.log = some file) :
    writeAll (messageWrites m disk) disk = (append none m disk).2 := by
  obtain ⟨_, floor⟩ := disk
  obtain ⟨_, doc, tickets, envelope⟩ := dir
  cases hdir
  cases hlog
  unfold messageWrites append
  by_cases hsize : MAX_FRAME_SIZE < (encodeMessage m).length
  · simp [hsize, appendLog]
  · cases doc <;>
      simp [hsize, appendLog, raiseHead, FileWrite.apply, Disk.modifyDir, AppendFault.ofLog]

theorem writeAll_ticketsWrites (tickets : List TicketEntry) (disk : Disk) :
    writeAll (ticketsWrites tickets disk) disk = (putTickets tickets disk).2 := by
  obtain ⟨_ | dir, floor⟩ := disk <;> rfl

theorem writeAll_envelopeWrites (envelope : Bytes) (disk : Disk) :
    writeAll (envelopeWrites envelope disk) disk = (putWorkspaceTicket envelope disk).2 := by
  obtain ⟨_ | dir, floor⟩ := disk
  · rfl
  · unfold envelopeWrites putWorkspaceTicket writeWorkspaceTicket
    by_cases hmax : WORKSPACE_TICKET_ENVELOPE_MAX < envelope.length
    · simp [hmax, Nat.not_le.mpr hmax]
    · simp [hmax, Nat.le_of_not_lt hmax, FileWrite.apply, Disk.modifyDir]

theorem writeAll_membersWrites (f : Finset PeerId → Finset PeerId) (disk : Disk) :
    writeAll (membersWrites f disk) disk = (updateMembers f disk).2 := by
  obtain ⟨_ | ⟨log, _ | doc, tickets, envelope⟩, floor⟩ := disk <;> rfl

/-- A call of the store as a program: what it returns, and its writes in their order. -/
def call {α : Type} (op : Disk → IoResult α) (writes : Disk → List FileWrite) :
    medium.Program (Except IoError α) :=
  fun disk => ((op disk).1, (writes disk).map .write)

namespace Programs

def create (r : SessionRecord) : medium.Program (Except IoError Unit) :=
  call (Store.create r) (createWrites r)

def append (m : SessionMessage) : medium.Program (Except IoError Unit) :=
  call (Store.append none m) (messageWrites m)

def bumpHostEpoch (epoch : UInt64) : medium.Program (Except IoError Unit) :=
  call (Store.bumpHostEpoch epoch) (bumpWrites epoch)

/-- Reads only: nothing is below the floor zero. -/
def epochFloor : medium.Program (Except IoError UInt64) := call Store.epochFloor fun _ => []

def putTickets (tickets : List TicketEntry) : medium.Program (Except IoError Unit) :=
  call (Store.putTickets tickets) (ticketsWrites tickets)

def putWorkspaceTicket (envelope : Bytes) : medium.Program (Except IoError Unit) :=
  call (Store.putWorkspaceTicket envelope) (envelopeWrites envelope)

def addMember (peer : PeerId) : medium.Program (Except IoError Unit) :=
  call (Store.addMember peer) (membersWrites (insert peer))

def removeMember (peer : PeerId) : medium.Program (Except IoError Unit) :=
  call (Store.removeMember peer) (membersWrites fun members => members.erase peer)

def delete : medium.Program (Except IoError Unit) :=
  fun disk => ((Store.delete disk).1, [.removeDirAll])

end Programs

end Artel.Store
