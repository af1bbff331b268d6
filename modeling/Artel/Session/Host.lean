import Artel.Lib.Search
import Artel.Session.Send

namespace Artel

open Store

/-- A join ticket; of the host's address only the peer id is kept. -/
structure SessionTicket where
  ticketId : TicketId
  sessionId : SessionId
  hostPeerId : PeerId
  grantedCap : Capability
  expiryMs : UInt64
  hostEpoch : UInt64
  capSig : SigBytes
  deriving DecidableEq

structure Mint where
  ticketId : TicketId
  nowMs : UInt64
  deriving DecidableEq

structure HostCall where
  peer : PeerId
  grantedCap : Capability
  expiryMs : UInt64
  mint : Mint
  deriving DecidableEq

variable {ed : Ed25519} (d : Daemon ed)

def mintTicket (id : SessionId) (call : HostCall) (hostEpoch : UInt64) : SessionTicket where
  ticketId := call.mint.ticketId
  sessionId := id
  hostPeerId := d.peerId
  grantedCap := call.grantedCap
  expiryMs := call.expiryMs
  hostEpoch := hostEpoch
  capSig := match d.signingKey with
    | none => SIGNATURE_UNSIGNED
    | some key => ed.sign key (Signing.ticketCapCanonicalBytes call.mint.ticketId id call.grantedCap
        call.expiryMs hostEpoch)

def ledgerEntry (call : HostCall) : TicketEntry where
  ticketId := call.mint.ticketId
  grantedCap := call.grantedCap
  expiryMs := call.expiryMs
  issuedAtMs := call.mint.nowMs
  status := .active
  usedBy := []

/-- `saturating_add(1)`. -/
def nextEpoch (epoch : UInt64) : UInt64 := if epoch.toNat + 1 < 2 ^ 64 then epoch + 1 else epoch

def createdSession (id : SessionId) (call : HostCall) (floor : UInt64) : Session :=
  { Session.new id call.peer .Local with hostEpoch := floor, tickets := [ledgerEntry call] }

def resumedSession (s : Session) (call : HostCall) : Session :=
  { s with hostEpoch := nextEpoch s.hostEpoch, tickets := s.tickets ++ [ledgerEntry call] }

/-- The session in memory numbers its messages upwards to its head. -/
structure Numbered (session : Session) : Prop where
  ascending : Ascending SessionMessage.seq session.log
  le_head : ∀ m ∈ session.log, m.seq ≤ session.head
  size : ∀ m ∈ session.log, (encodeMessage m).length ≤ MAX_FRAME_SIZE

theorem numbered_commitSend {session : Session} {draft : Draft} {m : SessionMessage}
    (h : Numbered session) (hm : Prepared ed session draft m) : Numbered (commitSend session m) := by
  have hlt : ∀ x ∈ session.log, x.seq < m.seq := fun x hx =>
    (Seq.lt_next_iff _ _ _ hm.seq).mpr (h.le_head x hx)
  have hmem : ∀ x ∈ session.log ++ [m], x ∈ session.log ∨ x = m := by simp
  refine ⟨(Ascending.append_singleton _).mpr ⟨h.ascending, hlt⟩, ?_, ?_⟩
  · intro x hx
    obtain hx | rfl := hmem x hx
    · exact (hlt x hx).le
    · exact le_rfl
  · intro x hx
    obtain hx | rfl := hmem x hx
    · exact h.size x hx
    · exact hm.size

theorem numbered_of_log_eq {session session' : Session} (h : Numbered session)
    (hlog : session'.log = session.log) (hhead : session'.head = session.head) :
    Numbered session' := by
  obtain ⟨h1, h2, h3⟩ := h
  rw [← hlog] at h1 h2 h3
  rw [← hhead] at h2
  exact ⟨h1, h2, h3⟩

theorem numbered_createdSession (id : SessionId) (call : HostCall) (floor : UInt64) :
    Numbered (createdSession id call floor) :=
  ⟨List.Pairwise.nil, by simp [createdSession, Session.new], by simp [createdSession, Session.new]⟩

/-- One session id on its host, run call by call: the registry's entry and the disk. -/
structure HostState where
  memory : Option Session
  disk : Disk
  /-- The messages a send returned `Ok` for. -/
  acked : List SessionMessage

/-- Where a load that the daemon skips gave up: before the log was read, or after. -/
inductive Skip
  | beforeLog
  | afterLog
  deriving DecidableEq

inductive HostOp
  | host (call : HostCall)
  | send (nowMs : UInt64) (draft : Draft) (fault : Option AppendFault)
  | ensureMember (peer : PeerId)
  | leave (peer : PeerId)
  | restart (skipped : Option Skip)
  deriving DecidableEq

namespace HostState

def host (id : SessionId) (s : HostState) (call : HostCall) : HostState :=
  match s.memory with
  | some session =>
    if session.host ≠ call.peer ∨ session.kind ≠ .Local then s
    else
      match putTickets (session.tickets ++ [ledgerEntry call]) s.disk with
      | (.error _, disk) => { s with disk := disk }
      | (.ok _, disk) =>
        match bumpHostEpoch (nextEpoch session.hostEpoch) disk with
        | (.error _, disk) => { s with disk := disk }
        | (.ok _, disk) => { s with memory := some (resumedSession session call), disk := disk }
  | none =>
    -- the store may still have a log for the id, and the create keeps it
    match epochFloor s.disk with
    | (.error _, disk) => { s with disk := disk }
    | (.ok floor, disk) =>
      let session := createdSession id call floor
      match create session.record disk with
      | (.error _, disk) => { s with disk := disk }
      | (.ok _, disk) => { s with memory := some session, disk := disk }

/-- A send on a hosted session; a failed append leaves memory alone. -/
def send (s : HostState) (nowMs : UInt64) (draft : Draft) (fault : Option AppendFault) : HostState :=
  if draft.kind = .system ∧ (reservedSystemAction draft.action).isSome then s
  else
    match s.memory with
    | none => s
    | some session =>
      match prepareSend d session nowMs draft with
      | .error _ => s
      | .ok m =>
        match append fault m s.disk with
        | (.error _, disk) => { s with disk := disk }
        | (.ok _, disk) => ⟨some (commitSend session m), disk, s.acked ++ [m]⟩

def ensureMember (s : HostState) (peer : PeerId) : HostState :=
  match s.memory with
  | none => s
  | some session =>
    if peer ∈ session.members then s
    else
      match addMember peer s.disk with
      | (.error _, disk) => { s with disk := disk }
      | (.ok _, disk) =>
        { s with memory := some { session with members := insert peer session.members }
                 disk := disk }

/-- The host's leave deletes the session, a member's leave only the member. -/
def leave (s : HostState) (peer : PeerId) : HostState :=
  match s.memory with
  | none => s
  | some session =>
    if peer ∉ session.members then s
    else if peer = session.host then { s with memory := none, disk := (delete s.disk).2 }
    else
      match removeMember peer s.disk with
      | (.error _, disk) => { s with disk := disk }
      | (.ok _, disk) =>
        { s with memory := some { session with members := session.members.erase peer }
                 disk := disk }

def restart (ed : Ed25519) (id : SessionId) (s : HostState) (skipped : Option Skip) : HostState :=
  match skipped with
  | some .beforeLog => { s with memory := none }
  | some .afterLog => { s with memory := none, disk := (load ed id true s.disk).2 }
  | none =>
    match load ed id true s.disk with
    | (.error _, disk) => { s with memory := none, disk := disk }
    | (.ok r, disk) => { s with memory := some (.fromRecord r), disk := disk }

def step (id : SessionId) (s : HostState) : HostOp → HostState
  | .host call => s.host id call
  | .send nowMs draft fault => send d s nowMs draft fault
  | .ensureMember peer => s.ensureMember peer
  | .leave peer => s.leave peer
  | .restart skipped => restart ed id s skipped

/-- What a call that sends nothing can do to the registry's entry. -/
inductive Entry (id : SessionId) (old : Option Session) : Option Session → Prop
  | gone : Entry id old none
  | kept {session session' : Session} (hold : old = some session) (hid : session'.id = session.id)
      (hlog : session'.log = session.log) (hhead : session'.head = session.head) :
      Entry id old (some session')
  | created (call : HostCall) (floor : UInt64) : Entry id old (some (createdSession id call floor))

variable (id : SessionId)

theorem Entry.refl (old : Option Session) : Entry id old old := by
  cases old with
  | none => exact .gone
  | some session => exact .kept rfl rfl rfl rfl

variable (s : HostState)

theorem host_cases (call : HostCall) :
    (s.host id call).acked = s.acked ∧ (s.host id call).disk.logBytes = s.disk.logBytes ∧
      Entry id s.memory (s.host id call).memory := by
  unfold host
  split
  · rename_i session hmem
    split
    · exact ⟨rfl, rfl, .refl id _⟩
    have hput := putTickets_logBytes (session.tickets ++ [ledgerEntry call]) s.disk
    split
    · rename_i heq
      rw [heq] at hput
      exact ⟨rfl, hput, .refl id _⟩
    rename_i disk heq
    rw [heq] at hput
    have hbump := bumpHostEpoch_logBytes (nextEpoch session.hostEpoch) disk
    split
    · rename_i heq'
      rw [heq'] at hbump
      exact ⟨rfl, hbump.trans hput, .refl id _⟩
    · rename_i heq'
      rw [heq'] at hbump
      exact ⟨rfl, hbump.trans hput, .kept hmem rfl rfl rfl⟩
  · have hcreate := create_logBytes
      (createdSession id call (readAndRaiseEpochFloor s.disk.epochFloor 0).1).record
      (epochFloor s.disk).2 rfl
    dsimp only [epochFloor] at hcreate ⊢
    split
    · rename_i heq
      rw [heq] at hcreate
      exact ⟨rfl, hcreate, .refl id _⟩
    · rename_i heq
      rw [heq] at hcreate
      exact ⟨rfl, hcreate, .created call _⟩

theorem ensureMember_cases (peer : PeerId) :
    (s.ensureMember peer).acked = s.acked ∧ (s.ensureMember peer).disk.logBytes = s.disk.logBytes ∧
      Entry id s.memory (s.ensureMember peer).memory := by
  unfold ensureMember
  split
  · exact ⟨rfl, rfl, .refl id _⟩
  rename_i session hmem
  split
  · exact ⟨rfl, rfl, .refl id _⟩
  have hadd := updateMembers_logBytes (insert peer) s.disk
  split
  · rename_i heq
    rw [← addMember, heq] at hadd
    exact ⟨rfl, hadd, .refl id _⟩
  · rename_i heq
    rw [← addMember, heq] at hadd
    exact ⟨rfl, hadd, .kept hmem rfl rfl rfl⟩

theorem leave_cases (peer : PeerId) :
    (s.leave peer).acked = s.acked ∧ Entry id s.memory (s.leave peer).memory := by
  unfold leave
  split
  · exact ⟨rfl, .refl id _⟩
  rename_i session hmem
  split
  · exact ⟨rfl, .refl id _⟩
  · split
    · exact ⟨rfl, .gone⟩
    · split
      · exact ⟨rfl, .refl id _⟩
      · exact ⟨rfl, .kept hmem rfl rfl rfl⟩

theorem send_cases (nowMs : UInt64) (draft : Draft) (fault : Option AppendFault) :
    send d s nowMs draft fault = s ∨
      ∃ session m, s.memory = some session ∧ Prepared ed session draft m ∧
        ((∃ e, (append fault m s.disk).1 = .error e ∧
            send d s nowMs draft fault = { s with disk := (append fault m s.disk).2 }) ∨
          ((append fault m s.disk).1 = .ok () ∧
            send d s nowMs draft fault =
              ⟨some (commitSend session m), (append fault m s.disk).2, s.acked ++ [m]⟩)) := by
  unfold send
  split
  · exact .inl rfl
  split
  · exact .inl rfl
  rename_i session hmem
  split
  · exact .inl rfl
  rename_i m hprep
  right
  refine ⟨session, m, hmem, prepareSend_ok d hprep, ?_⟩
  split
  · rename_i e disk heq
    rw [heq]
    exact .inl ⟨e, rfl, rfl⟩
  · rename_i heq
    rw [heq]
    exact .inr ⟨rfl, rfl⟩

end HostState

namespace Sample

def daemon : Daemon .checksum := ⟨peer 0, some (peer 0)⟩

def call : HostCall := ⟨peer 0, .readWrite, 0, ⟨⟨⟨List.replicate 16 9, by simp⟩⟩, 0⟩⟩

def note (payload : Bytes) : Draft := ⟨info 0, .chat, "", payload, .Local⟩

end Sample

end Artel
