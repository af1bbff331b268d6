import Artel.Session.Host
import Artel.Session.Mirror

namespace Artel

open Store

/-- What of a session the store keeps; the order of the log is left open. -/
structure Image where
  host : PeerId
  kind : SessionKind
  members : Finset PeerId
  hostEpoch : UInt64
  tickets : List TicketEntry
  workspaceTicket : Option Bytes
  log : Multiset SessionMessage

def Session.image (s : Session) : Image :=
  ⟨s.host, s.kind, s.members, s.hostEpoch, s.tickets, s.workspaceTicket, s.log⟩

def Image.addMessage (x : Image) (m : SessionMessage) : Image := { x with log := m ::ₘ x.log }

theorem image_commitSend (s : Session) (m : SessionMessage) :
    (commitSend s m).image = s.image.addMessage m := by
  have hlog : ((s.log ++ [m] : List SessionMessage) : Multiset SessionMessage) = m ::ₘ s.log :=
    Multiset.coe_eq_coe.mpr (List.perm_append_singleton m s.log)
  simp only [Session.image, commitSend, Image.addMessage, hlog]

theorem image_mirrorInsert (s : Session) (pos : ℕ) (m : SessionMessage) :
    (mirrorInsert s pos m).image = s.image.addMessage m := by
  have hperm : (s.log.take pos ++ m :: s.log.drop pos).Perm (m :: s.log) := by
    have hmiddle : (s.log.take pos ++ m :: s.log.drop pos).Perm
        (m :: (s.log.take pos ++ s.log.drop pos)) := List.perm_middle
    rwa [List.take_append_drop] at hmiddle
  have hlog : ((s.log.take pos ++ m :: s.log.drop pos : List SessionMessage) :
      Multiset SessionMessage) = m ::ₘ s.log := Multiset.coe_eq_coe.mpr hperm
  simp only [Session.image, mirrorInsert, Image.addMessage, hlog]

/-- The files of a directory, with the meta and the log file read, that hold an image. -/
structure HoldsAs (x : Image) (dir : SessionDir) (doc : Meta) (log : List SessionMessage) :
    Prop where
  doc_eq : dir.metaJson = some doc
  log_eq : dir.log = some (encodeLog log)
  version : doc.version = META_VERSION
  host : doc.host = x.host
  kind : doc.kind = x.kind
  members : doc.members = x.members
  hostEpoch : doc.hostEpoch = x.hostEpoch
  tickets : (loadTickets dir.ticketsJson).1 = x.tickets
  workspaceTicket : dir.workspaceTicket = x.workspaceTicket
  envelope : ∀ e ∈ dir.workspaceTicket, e.length ≤ WORKSPACE_TICKET_ENVELOPE_MAX
  messages : (log : Multiset SessionMessage) = x.log
  size : ∀ m ∈ log, (encodeMessage m).length ≤ MAX_FRAME_SIZE

def Holds (x : Image) (dir : SessionDir) : Prop := ∃ doc log, HoldsAs x dir doc log

/-- A record carries what an in-memory session has, with the same set of messages. -/
structure Carries (r : SessionRecord) (s : Session) : Prop where
  host : r.host = s.host
  kind : r.kind = s.kind
  members : r.members = s.members
  hostEpoch : r.hostEpoch = s.hostEpoch
  tickets : r.tickets = s.tickets
  workspaceTicket : r.workspaceTicket = s.workspaceTicket
  log : ∀ m, m ∈ r.log ↔ m ∈ s.log

theorem carries_of_holds (ed : Ed25519) (id : SessionId) {s : Session} {dir : SessionDir}
    (h : Holds s.image dir) : ∃ r, (loadOne ed id false dir).1 = .ok r ∧ Carries r s := by
  obtain ⟨doc, log, h⟩ := h
  have hload := loadOne_ok ed id false dir h.log_eq h.doc_eq h.version h.envelope h.size
    (fun hf => by cases hf)
  rw [hload]
  refine ⟨_, rfl, h.host, h.kind, h.members, h.hostEpoch, h.tickets, h.workspaceTicket, ?_⟩
  intro m
  have hperm : log.Perm s.log := Multiset.coe_eq_coe.mp h.messages
  exact hperm.mem_iff

theorem members_of_loadOne {ed : Ed25519} {id : SessionId} {verify : Bool} {dir : SessionDir}
    {doc : Meta} {r : SessionRecord} (h : (loadOne ed id verify dir).1 = .ok r)
    (hdoc : dir.metaJson = some doc) : r.members = doc.members := by
  unfold loadOne at h
  rw [hdoc] at h
  dsimp only at h
  split at h
  · cases h
  · split at h
    · cases h
    · cases h
      rfl

/-- From `x` it leaves `x'`, or fails and leaves `y`; it makes no directory. -/
def Writes (op : Disk → IoResult Unit) (x x' y : Image) : Prop :=
  (∀ disk, disk.dir = none → (op disk).2.dir = none) ∧
    ∀ disk dir, disk.dir = some dir → Holds x dir →
      ((op disk).1 = .ok () ∧ ∃ dir', (op disk).2.dir = some dir' ∧ Holds x' dir') ∨
        ((∃ e, (op disk).1 = .error e) ∧ ∃ dir', (op disk).2.dir = some dir' ∧ Holds y dir')

section Writes

variable (x y : Image)

theorem writes_append (m : SessionMessage) : Writes (append none m) x (x.addMessage m) x := by
  refine ⟨fun disk hdir => ?_, fun disk dir hdir hx => ?_⟩
  · simp [append, hdir]
  · obtain ⟨doc, log, hx⟩ := hx
    -- over the frame limit the append fails before it writes
    by_cases hsize : (encodeMessage m).length ≤ MAX_FRAME_SIZE
    · left
      rw [append_none hdir hx.log_eq hx.doc_eq hsize]
      have hlog : ((log ++ [m] : List SessionMessage) : Multiset SessionMessage) = m ::ₘ x.log := by
        rw [← hx.messages]
        exact Multiset.coe_eq_coe.mpr (List.perm_append_singleton m log)
      have hsizes : ∀ k ∈ log ++ [m], (encodeMessage k).length ≤ MAX_FRAME_SIZE := by
        intro k hk
        rcases List.mem_append.mp hk with hk | hk
        · exact hx.size k hk
        · rwa [List.mem_singleton.mp hk]
      refine ⟨rfl, _, rfl, { doc with head := max doc.head m.seq }, log ++ [m], ?_⟩
      exact { hx with doc_eq := rfl, log_eq := rfl, messages := hlog, size := hsizes }
    · right
      rw [append_oversize m hdir hx.log_eq (Nat.lt_of_not_le hsize)]
      exact ⟨⟨_, rfl⟩, dir, hdir, doc, log, hx⟩

theorem writes_putTickets (tickets : List TicketEntry) :
    Writes (putTickets tickets) x { x with tickets := tickets } y := by
  refine ⟨fun disk hdir => ?_, fun disk dir hdir hx => ?_⟩
  · simp [putTickets, hdir]
  · left
    obtain ⟨doc, log, hx⟩ := hx
    simp only [putTickets, hdir]
    exact ⟨trivial, _, rfl, doc, log, { hx with tickets := rfl }⟩

theorem writes_bumpHostEpoch (epoch : UInt64) :
    Writes (bumpHostEpoch epoch) x { x with hostEpoch := epoch } y := by
  refine ⟨fun disk hdir => ?_, fun disk dir hdir hx => ?_⟩
  · simp [bumpHostEpoch, hdir]
  · left
    obtain ⟨doc, log, hx⟩ := hx
    simp only [bumpHostEpoch, hdir, hx.doc_eq]
    exact ⟨trivial, _, rfl, { doc with hostEpoch := epoch }, log,
      { hx with doc_eq := rfl, hostEpoch := rfl }⟩

theorem writes_updateMembers (f : Finset PeerId → Finset PeerId) :
    Writes (updateMembers f) x { x with members := f x.members } y := by
  refine ⟨fun disk hdir => ?_, fun disk dir hdir hx => ?_⟩
  · simp [updateMembers, hdir]
  · left
    obtain ⟨doc, log, hx⟩ := hx
    simp only [updateMembers, hdir, hx.doc_eq]
    refine ⟨trivial, _, rfl, { doc with members := f doc.members }, log, ?_⟩
    exact { hx with doc_eq := rfl, members := congrArg f hx.members }

theorem writes_addMember (peer : PeerId) :
    Writes (addMember peer) x { x with members := insert peer x.members } y :=
  writes_updateMembers x y (insert peer)

theorem writes_removeMember (peer : PeerId) :
    Writes (removeMember peer) x { x with members := x.members.erase peer } y :=
  writes_updateMembers x y fun members => members.erase peer

theorem writes_putWorkspaceTicket (envelope : Bytes) :
    Writes (putWorkspaceTicket envelope) x { x with workspaceTicket := some envelope } x := by
  refine ⟨fun disk hdir => ?_, fun disk dir hdir hx => ?_⟩
  · simp [putWorkspaceTicket, hdir]
  · obtain ⟨doc, log, hx⟩ := hx
    simp only [putWorkspaceTicket, hdir, writeWorkspaceTicket]
    split
    · right
      exact ⟨⟨_, rfl⟩, _, rfl, doc, log, { hx with }⟩
    rename_i hfits
    left
    refine ⟨rfl, _, rfl, doc, log, { hx with workspaceTicket := rfl, envelope := ?_ }⟩
    intro e he
    cases he
    exact Nat.le_of_not_lt hfits

end Writes

theorem create_holds {disk : Disk} (hdir : disk.dir = none) {s : Session} (hlog : s.log = [])
    (hticket : s.workspaceTicket = none) :
    (create s.record disk).1 = .ok () ∧
      ∃ dir, (create s.record disk).2.dir = some dir ∧ Holds s.image dir := by
  have hledger : (loadTickets (if s.tickets.isEmpty then none
      else some ⟨TICKETS_VERSION, s.tickets⟩)).1 = s.tickets := by
    cases ht : s.tickets with
    | nil => rfl
    | cons t rest => simp [loadTickets]
  simp only [create, Session.record, hdir, hlog, hticket, Option.getD_none, SessionDir.empty,
    appendAll]
  refine ⟨trivial, _, rfl, Meta.fromRecord s.record, [], ?_⟩
  exact
    { doc_eq := by simp only [Session.record, hlog, hticket]
      log_eq := rfl
      version := rfl
      host := rfl
      kind := rfl
      members := rfl
      hostEpoch := rfl
      tickets := hledger
      workspaceTicket := hticket.symm
      envelope := fun e he => by cases he
      messages := by simp only [Session.image, hlog]
      size := fun m hm => by cases hm }

end Artel
