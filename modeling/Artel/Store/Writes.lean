import Artel.Lib.Run
import Artel.Store.Fs

namespace Artel.Store

inductive FileWrite
  | ensureDir
  | epochFloor (floor : UInt64)
  | touchLog
  | metaJson (doc : Meta)
  | ticketsJson (file : TicketsFile)
  | workspaceTicket (envelope : Bytes)
  | appendLog (m : SessionMessage)

def Disk.modifyDir (f : SessionDir → SessionDir) (disk : Disk) : Disk :=
  { disk with dir := disk.dir.map f }

def FileWrite.apply : FileWrite → Disk → Disk
  | .ensureDir, disk => { disk with dir := some (disk.dir.getD .empty) }
  | .epochFloor floor, disk => { disk with epochFloor := some floor }
  | .touchLog, disk => disk.modifyDir fun dir => { dir with log := some (dir.log.getD []) }
  | .metaJson doc, disk => disk.modifyDir fun dir => { dir with metaJson := some doc }
  | .ticketsJson file, disk => disk.modifyDir fun dir => { dir with ticketsJson := some file }
  | .workspaceTicket envelope, disk =>
    disk.modifyDir fun dir => { dir with workspaceTicket := some envelope }
  | .appendLog m, disk =>
    disk.modifyDir fun dir => { dir with log := some (Store.appendLog none m (dir.log.getD [])).2 }

def FileWrite.hostEpoch : FileWrite → Option UInt64
  | .metaJson doc => some doc.hostEpoch
  | _ => none

/-- The write of `read_and_raise_epoch_floor`, if it makes one. -/
def raiseWrites (floor : Option UInt64) (raiseTo : UInt64) : List FileWrite :=
  if floor.getD 0 < raiseTo then [.epochFloor raiseTo] else []

/-- The messages up to the first that does not fit a frame. -/
def appendWrites (log : List SessionMessage) : List FileWrite :=
  (log.takeWhile fun m => (encodeMessage m).length ≤ MAX_FRAME_SIZE).map .appendLog

/-- What `create` writes, in its order; the floor goes first. -/
def createWrites (r : SessionRecord) (disk : Disk) : List FileWrite :=
  [.ensureDir] ++ raiseWrites disk.epochFloor (r.hostEpoch + 1) ++
    [.touchLog, .metaJson (Meta.fromRecord r)] ++
    (if r.tickets.isEmpty then [] else [.ticketsJson ⟨TICKETS_VERSION, r.tickets⟩]) ++
    match r.workspaceTicket with
    | none => appendWrites r.log
    | some envelope =>
      if WORKSPACE_TICKET_ENVELOPE_MAX < envelope.length then []
      else .workspaceTicket envelope :: appendWrites r.log

/-- `bump_host_epoch` writes the floor and then the meta. -/
def bumpWrites (epoch : UInt64) (disk : Disk) : List FileWrite :=
  match disk.dir.bind SessionDir.metaJson with
  | none => []
  | some doc =>
    raiseWrites disk.epochFloor (epoch + 1) ++ [.metaJson { doc with hostEpoch := epoch }]

def writeAll (ws : List FileWrite) (disk : Disk) : Disk := ws.foldl (fun disk w => w.apply disk) disk

@[simp] theorem writeAll_nil (disk : Disk) : writeAll [] disk = disk := rfl

@[simp] theorem writeAll_cons (w : FileWrite) (ws : List FileWrite) (disk : Disk) :
    writeAll (w :: ws) disk = writeAll ws (w.apply disk) := rfl

@[simp] theorem writeAll_append (ws vs : List FileWrite) (disk : Disk) :
    writeAll (ws ++ vs) disk = writeAll vs (writeAll ws disk) := List.foldl_append ..

theorem writeAll_raiseWrites (floor : Option UInt64) (raiseTo : UInt64) (dir : Option SessionDir) :
    writeAll (raiseWrites floor raiseTo) ⟨dir, floor⟩ =
      ⟨dir, (readAndRaiseEpochFloor floor raiseTo).2⟩ := by
  unfold raiseWrites readAndRaiseEpochFloor
  dsimp only
  split <;> rfl

theorem writeAll_appendWrites (log : List SessionMessage) (dir : SessionDir) (file : Bytes)
    (floor : Option UInt64) (hfile : dir.log = some file) :
    writeAll (appendWrites log) ⟨some dir, floor⟩ =
      ⟨some { dir with log := some (appendAll log file).2 }, floor⟩ := by
  induction log generalizing dir file with
  | nil =>
    obtain ⟨_, doc, tickets, envelope⟩ := dir
    cases hfile
    rfl
  | cons m log ih =>
    unfold appendWrites at ih ⊢
    by_cases hsize : (encodeMessage m).length ≤ MAX_FRAME_SIZE
    · have hok : Store.appendLog none m file = (.ok (), file ++ Frames.frame (encodeMessage m)) := by
        rw [Store.appendLog, if_neg (Nat.not_lt.mpr hsize)]
      rw [List.takeWhile_cons_of_pos (by simpa using hsize), List.map_cons, writeAll_cons]
      simp only [FileWrite.apply, Disk.modifyDir, Option.map_some, hfile, Option.getD_some, hok,
        appendAll]
      exact ih _ _ rfl
    · have hfail : Store.appendLog none m file = (.error .invalidData, file) := by
        rw [Store.appendLog, if_pos (Nat.lt_of_not_le hsize)]
      rw [List.takeWhile_cons_of_neg (by simpa using hsize)]
      obtain ⟨_, doc, tickets, envelope⟩ := dir
      cases hfile
      simp [appendAll, hfail]

theorem writeAll_bumpWrites (epoch : UInt64) (disk : Disk) :
    writeAll (bumpWrites epoch disk) disk = (bumpHostEpoch epoch disk).2 := by
  obtain ⟨dir, floor⟩ := disk
  unfold bumpWrites bumpHostEpoch
  cases dir with
  | none => rfl
  | some dir =>
    dsimp only [Option.bind_some]
    cases dir.metaJson with
    | none => rfl
    | some doc =>
      rw [writeAll_append, writeAll_raiseWrites]
      rfl

end Artel.Store
