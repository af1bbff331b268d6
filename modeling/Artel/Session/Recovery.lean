import Artel.Session.Image
import Artel.Store.Programs
import Artel.Store.Recorded

namespace Artel

open Store Medium.Program

def Stored (s : Session) (disk : Disk) : Prop :=
  ∃ dir doc, disk.dir = some dir ∧ HoldsAs s.image dir doc s.log

/-- The directory holds this session, maybe with torn bytes of an append behind the log. -/
def Recoverable (s : Session) (disk : Disk) : Prop :=
  ∃ dir doc tail, disk.dir = some { dir with log := some (encodeLog s.log ++ tail) } ∧
    Frames.Torn MAX_FRAME_SIZE tail ∧ HoldsAs s.image dir doc s.log

theorem Stored.recoverable {s : Session} {disk : Disk} (h : Stored s disk) : Recoverable s disk := by
  obtain ⟨dir, doc, hdir, h⟩ := h
  refine ⟨dir, doc, [], ?_, Frames.torn_nil _, h⟩
  rw [hdir, List.append_nil, ← h.log_eq]

/-- The loaded record is the session, with a head that covers the log. -/
structure Recalled (id : SessionId) (s : Session) (r : SessionRecord) : Prop where
  id : r.id = id
  host : r.host = s.host
  kind : r.kind = s.kind
  members : r.members = s.members
  hostEpoch : r.hostEpoch = s.hostEpoch
  tickets : r.tickets = s.tickets
  workspaceTicket : r.workspaceTicket = s.workspaceTicket
  log : r.log = s.log
  le_head : ∀ m ∈ r.log, m.seq ≤ r.head

theorem Recoverable.load {s : Session} {disk : Disk} (h : Recoverable s disk) (ed : Ed25519)
    (id : SessionId) (verify : Bool)
    (hv : verify = true → ∀ m ∈ s.log, Signing.verifyMessage ed id m m.signature = .ok ()) :
    ∃ r, (load ed id verify disk).1 = .ok r ∧ Recalled id s r := by
  obtain ⟨dir, doc, tail, hdir, htorn, h⟩ := h
  have hload := loadOne_torn ed id verify { dir with log := some (encodeLog s.log ++ tail) } rfl
    h.doc_eq h.version h.envelope h.size htorn
  rw [readLog_encodeLog ed id verify s.log h.size hv] at hload
  rw [Store.load, hdir]
  dsimp only
  rw [hload]
  refine ⟨_, rfl, rfl, h.host, h.kind, h.members, h.hostEpoch, h.tickets, h.workspaceTicket, rfl, ?_⟩
  intro m hm
  exact (seq_le_logTail s.log m hm).trans (le_max_right _ _)

/-- A crash inside the call leaves the stored session before it or after it. -/
def Takes (t : medium.Program (Except IoError Unit)) (s s' : Session) : Prop :=
  ∀ disk, Stored s disk →
    t.Meets disk (fun r disk' => r = .ok () ∧ Stored s' disk')
      fun disk' => Recoverable s disk' ∨ Recoverable s' disk'

/-- A crash inside this write leaves what was there or what it writes. -/
def Whole (w : FileWrite) : Prop := ∀ disk disk', ¬ DiskStep.Torn (.write w) disk disk'

section Takes

variable {s s' : Session}

theorem takes_single {op : Disk → IoResult Unit} {writes : Disk → List FileWrite}
    (h : ∀ disk, Stored s disk →
      (op disk).1 = .ok () ∧ ∃ w, writes disk = [w] ∧ Whole w ∧ Stored s' (w.apply disk)) :
    Takes (call op writes) s s' := by
  intro disk hs
  obtain ⟨hok, w, hw, hwhole, hs'⟩ := h disk hs
  refine ⟨?_, fun disk' hcut => ?_⟩
  · simp only [call, hok, hw]
    exact ⟨trivial, hs'⟩
  · simp only [call, hw] at hcut
    obtain rfl | htorn | hlater := hcut.of_cons
    · exact .inl hs.recoverable
    · exact absurd htorn (hwhole disk disk')
    · rw [hlater.of_nil]
      exact .inr hs'.recoverable

theorem takes_putTickets (s : Session) (tickets : List TicketEntry) :
    Takes (Programs.putTickets tickets) s { s with tickets := tickets } := by
  refine takes_single fun disk hs => ?_
  obtain ⟨dir, doc, hdir, h⟩ := hs
  refine ⟨by simp [putTickets, hdir], _, by simp [ticketsWrites, hdir]; rfl, fun _ _ => id,
    { dir with ticketsJson := some ⟨TICKETS_VERSION, tickets⟩ }, doc, ?_, ?_⟩
  · simp [FileWrite.apply, Disk.modifyDir, hdir]
  · exact { h with tickets := rfl }

theorem takes_putWorkspaceTicket (s : Session) {envelope : Bytes}
    (hmax : envelope.length ≤ WORKSPACE_TICKET_ENVELOPE_MAX) :
    Takes (Programs.putWorkspaceTicket envelope) s { s with workspaceTicket := some envelope } := by
  refine takes_single fun disk hs => ?_
  obtain ⟨dir, doc, hdir, h⟩ := hs
  refine ⟨by simp [putWorkspaceTicket, writeWorkspaceTicket, hdir, Nat.not_lt.mpr hmax], _,
    by simp [envelopeWrites, hdir, hmax]; rfl, fun _ _ => id,
    { dir with workspaceTicket := some envelope }, doc, ?_, ?_⟩
  · simp [FileWrite.apply, Disk.modifyDir, hdir]
  · have henvelope : ∀ e ∈ some envelope, e.length ≤ WORKSPACE_TICKET_ENVELOPE_MAX := by
      rintro e ⟨⟩
      exact hmax
    exact { h with workspaceTicket := rfl, envelope := henvelope }

theorem takes_updateMembers (s : Session) (f : Finset PeerId → Finset PeerId) :
    Takes (call (updateMembers f) (membersWrites f)) s { s with members := f s.members } := by
  refine takes_single fun disk hs => ?_
  obtain ⟨dir, doc, hdir, h⟩ := hs
  refine ⟨by simp [updateMembers, hdir, h.doc_eq], _, by simp [membersWrites, hdir, h.doc_eq]; rfl,
    fun _ _ => id, { dir with metaJson := some { doc with members := f doc.members } },
    { doc with members := f doc.members }, ?_, ?_⟩
  · simp [FileWrite.apply, Disk.modifyDir, hdir]
  · exact { h with doc_eq := rfl, members := congrArg f h.members }

theorem cut_raiseWrites {floor : Option UInt64} {raiseTo : UInt64} {disk disk' : Disk}
    (h : medium.Cut ((raiseWrites floor raiseTo).map .write) disk disk') : disk'.dir = disk.dir := by
  unfold raiseWrites at h
  split at h
  · obtain rfl | htorn | hlater := h.of_cons
    · rfl
    · exact absurd htorn id
    · rw [hlater.of_nil]
      rfl
  · rw [h.of_nil]

theorem applyAll_raiseWrites (floor : Option UInt64) (raiseTo : UInt64) (disk : Disk) :
    (medium.applyAll ((raiseWrites floor raiseTo).map .write) disk).dir = disk.dir := by
  unfold raiseWrites
  split <;> rfl

theorem Stored.of_dir_eq {disk disk' : Disk} (h : Stored s disk) (hdir : disk'.dir = disk.dir) :
    Stored s disk' := by
  unfold Stored
  rw [hdir]
  exact h

theorem takes_bumpHostEpoch (s : Session) (epoch : UInt64) :
    Takes (Programs.bumpHostEpoch epoch) s { s with hostEpoch := epoch } := by
  intro disk hs
  have hstored := hs
  obtain ⟨dir, doc, hdir, h⟩ := hs
  let doc' := { doc with hostEpoch := epoch }
  have hrun : Programs.bumpHostEpoch epoch disk =
      (.ok (), (raiseWrites disk.epochFloor (epoch + 1)).map .write ++ [.write (.metaJson doc')]) := by
    simp [Programs.bumpHostEpoch, call, bumpHostEpoch, bumpWrites, hdir, h.doc_eq, doc']
  have hs' : ∀ disk', disk'.dir = some dir → Stored { s with hostEpoch := epoch }
      (medium.apply (.write (.metaJson doc')) disk') := by
    intro disk' hdir'
    refine ⟨{ dir with metaJson := some doc' }, doc', ?_, { h with doc_eq := rfl, hostEpoch := rfl }⟩
    simp [medium, DiskStep.apply, FileWrite.apply, Disk.modifyDir, hdir']
  have hraised := (applyAll_raiseWrites disk.epochFloor (epoch + 1) disk).trans hdir
  constructor
  · rw [hrun, Medium.applyAll_append]
    exact ⟨rfl, hs' _ hraised⟩
  · intro disk' hcut
    rw [hrun] at hcut
    obtain hfloor | hmeta := hcut.of_append
    · exact .inl (hstored.of_dir_eq (cut_raiseWrites hfloor)).recoverable
    · obtain rfl | htorn | hlater := hmeta.of_cons
      · exact .inl (hstored.of_dir_eq (hraised.trans hdir.symm)).recoverable
      · exact absurd htorn id
      · rw [hlater.of_nil]
        exact .inr (hs' _ hraised).recoverable

/-- From the frame's last byte on the message is there, whatever the meta says. -/
theorem takes_append {s : Session} {m : SessionMessage}
    (hsize : (encodeMessage m).length ≤ MAX_FRAME_SIZE) :
    Takes (Programs.append m) s (commitSend s m) := by
  intro disk hs
  have hstored := hs
  obtain ⟨dir, doc, hdir, h⟩ := hs
  let doc' := { doc with head := max doc.head m.seq }
  have hrun : Programs.append m disk =
      (.ok (), [.write (.appendLog m), .write (.metaJson doc')]) := by
    simp [Programs.append, call, append_none hdir h.log_eq h.doc_eq hsize, messageWrites, hdir,
      h.doc_eq, Nat.not_lt.mpr hsize, doc']
  have hsizes : ∀ x ∈ s.log ++ [m], (encodeMessage x).length ≤ MAX_FRAME_SIZE := by
    intro x hx
    rcases List.mem_append.mp hx with hx | hx
    · exact h.size x hx
    · rwa [List.mem_singleton.mp hx]
  have hframe : (medium.apply (.write (.appendLog m)) disk).dir =
      some { dir with log := some (encodeLog (s.log ++ [m])) } := by
    simp [medium, DiskStep.apply, FileWrite.apply, Disk.modifyDir, hdir, h.log_eq, appendLog,
      Nat.not_lt.mpr hsize]
  have hheld : HoldsAs (commitSend s m).image { dir with log := some (encodeLog (s.log ++ [m])) } doc
      (commitSend s m).log := { h with log_eq := rfl, messages := rfl, size := hsizes }
  have hmid : Stored (commitSend s m) (medium.apply (.write (.appendLog m)) disk) :=
    ⟨_, doc, hframe, hheld⟩
  have hlast : Stored (commitSend s m) (medium.apply (.write (.metaJson doc'))
      (medium.apply (.write (.appendLog m)) disk)) := by
    refine ⟨{ dir with log := some (encodeLog (s.log ++ [m])), metaJson := some doc' }, doc', ?_,
      { hheld with doc_eq := rfl }⟩
    rw [show medium.apply (.write (.metaJson doc')) (medium.apply (.write (.appendLog m)) disk) =
      Disk.modifyDir (fun dir => { dir with metaJson := some doc' })
        (medium.apply (.write (.appendLog m)) disk) from rfl, Disk.modifyDir, hframe]
    rfl
  constructor
  · rw [hrun]
    exact ⟨rfl, hlast⟩
  · intro disk' hcut
    rw [hrun] at hcut
    obtain rfl | ⟨k, rfl⟩ | hcut := hcut.of_cons
    · exact .inl hstored.recoverable
    · have hpart : (disk.appendPart m k).dir = some { dir with
          log := some (encodeLog s.log ++ (Frames.frame (encodeMessage m)).take k) } := by
        simp [Disk.appendPart, Disk.modifyDir, hdir, h.log_eq]
      by_cases hk : k < 4 + (encodeMessage m).length
      · have hmax := max_frame_lt
        exact .inl ⟨dir, doc, _, hpart, Frames.torn_take_frame _ _ k (by omega) hk, h⟩
      · rw [List.take_of_length_le (by rw [Frames.frame_length]; omega),
          ← encodeLog_append_singleton] at hpart
        exact .inr (Stored.recoverable ⟨_, doc, hpart, hheld⟩)
    · obtain rfl | htorn | hlater := hcut.of_cons
      · exact .inr hmid.recoverable
      · exact absurd htorn id
      · rw [hlater.of_nil]
        exact .inr hlast.recoverable

/-- Up to the meta there is nothing to load, then the session, at first without its ledger. -/
theorem meets_create {disk : Disk} (hdir : disk.dir = none) (hlog : s.log = [])
    (hticket : s.workspaceTicket = none) (htickets : s.tickets ≠ []) :
    (Programs.create s.record).Meets disk (fun r disk' => r = .ok () ∧ Stored s disk')
      fun disk' => storedMeta disk' = none ∨ Recoverable { s with tickets := [] } disk' ∨
        Recoverable s disk' := by
  let doc := Meta.fromRecord s.record
  let bare : SessionDir := ⟨some [], some doc, none, none⟩
  let full : SessionDir := ⟨some [], some doc, some ⟨TICKETS_VERSION, s.tickets⟩, none⟩
  have hbare : HoldsAs { s with tickets := [] }.image bare doc s.log :=
    { doc_eq := rfl
      log_eq := by rw [hlog]; rfl
      version := rfl
      host := rfl
      kind := rfl
      members := rfl
      hostEpoch := rfl
      tickets := rfl
      workspaceTicket := hticket.symm
      envelope := nofun
      messages := rfl
      size := by rw [hlog]; exact nofun }
  have hfull : HoldsAs s.image full doc s.log :=
    { hbare with doc_eq := rfl, log_eq := hbare.log_eq, tickets := rfl }
  obtain ⟨t, ts, hts⟩ := List.exists_cons_of_ne_nil htickets
  have hwrites : createWrites s.record disk = [.ensureDir] ++
      raiseWrites disk.epochFloor (s.hostEpoch + 1) ++
        [.touchLog, .metaJson doc, .ticketsJson ⟨TICKETS_VERSION, s.tickets⟩] := by
    simp [createWrites, Session.record, hlog, hticket, hts, appendWrites, doc]
  have hok : (create s.record disk).1 = .ok () := by
    simp [create, Session.record, hlog, hticket, appendAll]
  have hrun : Programs.create s.record disk = (.ok (), .write .ensureDir ::
      ((raiseWrites disk.epochFloor (s.hostEpoch + 1)).map .write ++
        [.write .touchLog, .write (.metaJson doc),
          .write (.ticketsJson ⟨TICKETS_VERSION, s.tickets⟩)])) := by
    simp [Programs.create, call, hok, hwrites]
  obtain ⟨raised, hraised, hempty⟩ : ∃ raised, medium.applyAll
      ((raiseWrites disk.epochFloor (s.hostEpoch + 1)).map .write)
        (medium.apply (.write .ensureDir) disk) = raised ∧ raised.dir = some .empty :=
    ⟨_, rfl, by rw [applyAll_raiseWrites]; simp [medium, DiskStep.apply, FileWrite.apply, hdir]⟩
  obtain ⟨_, floor⟩ := raised
  cases hempty
  constructor
  · rw [hrun, Medium.applyAll_cons, Medium.applyAll_append, hraised]
    exact ⟨rfl, full, doc, rfl, hfull⟩
  · intro disk' hcut
    rw [hrun] at hcut
    obtain rfl | htorn | hcut := hcut.of_cons
    · exact .inl (by simp [storedMeta, hdir])
    · exact absurd htorn id
    obtain hfloor | hcut := hcut.of_append
    · left
      rw [storedMeta, cut_raiseWrites hfloor]
      simp [medium, DiskStep.apply, FileWrite.apply, hdir, SessionDir.empty]
    rw [hraised] at hcut
    obtain rfl | htorn | hcut := hcut.of_cons
    · exact .inl rfl
    · exact absurd htorn id
    obtain rfl | htorn | hcut := hcut.of_cons
    · exact .inl rfl
    · exact absurd htorn id
    obtain rfl | htorn | hcut := hcut.of_cons
    · exact .inr (.inl (Stored.recoverable ⟨bare, doc, rfl, hbare⟩))
    · exact absurd htorn id
    · rw [hcut.of_nil]
      exact .inr (.inr (Stored.recoverable ⟨full, doc, rfl, hfull⟩))

end Takes

end Artel
