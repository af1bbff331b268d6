import Artel.Lib.Run
import Artel.Session.Host
import Artel.Session.Keyed
import Artel.Session.Reload
import Artel.Store.Filed

namespace Artel.Backfill

open Store List

/-- The actions that a replay over gossip leaves out. -/
def unicastOnly (action : String) : Bool :=
  action = UPGRADE_ACTION || action = TICKET_ACTION || action = DOWNGRADE_ACTION ||
    action = ROTATE_ACTION

/-- What `run_host_replay` broadcasts of the log above `since`. -/
def logSince (s : Session) (since : Seq) : List SessionMessage :=
  s.log.filter fun m =>
    since < m.seq && (m.kind ≠ .capability) && !(m.kind = .system && unicastOnly m.action)

/-- What sends broadcast live: only capability messages stay on the host. -/
def broadcasts (s : Session) : List SessionMessage := s.log.filter fun m => m.kind ≠ .capability

/-- A message that is broadcast live and that no replay has. -/
def Withheld (m : SessionMessage) : Prop :=
  m.kind = .system ∧ (m.action = DOWNGRADE_ACTION ∨ m.action = ROTATE_ACTION)

instance (m : SessionMessage) : Decidable (Withheld m) := inferInstanceAs (Decidable (_ ∧ _))

section HostLog

variable {ed : Ed25519} (d : Daemon ed) (id : SessionId)

/-- The daemon hosts and sends as itself, and the store does not fail. -/
def Allowed : HostOp → Prop
  | .host call => call.peer = d.peerId
  | .send _ draft fault => draft.Stamped d ∧ fault = none
  | .ensureMember _ => True
  | .leave _ => True
  | .restart skipped => skipped = none

instance : DecidablePred (Allowed d)
  | .host _ => inferInstanceAs (Decidable (_ = _))
  | .send _ _ _ => inferInstanceAs (Decidable (_ ∧ _))
  | .ensureMember _ => isTrue trivial
  | .leave _ => isTrue trivial
  | .restart _ => inferInstanceAs (Decidable (_ = _))

def hostRun (floor : Option UInt64) (ops : List HostOp) : HostState :=
  ops.foldl (HostState.step d id) ⟨none, ⟨none, floor⟩, []⟩

structure Sequenced (ed : Ed25519) (id : SessionId) (host : PeerId) (s : Session) : Prop where
  id_eq : s.id = id
  host_eq : s.host = host
  numbered : Numbered s
  positive : ∀ m ∈ s.log, Seq.ZERO < m.seq
  signed : ∀ m ∈ s.log, verifyFrame ed host id m = .ok ()
  unreserved : ∀ m ∈ s.log, isReserved m = false

theorem sequenced_created {call : HostCall} (hpeer : call.peer = d.peerId) (floor : UInt64) :
    Sequenced ed id d.peerId (createdSession id call floor) where
  id_eq := rfl
  host_eq := hpeer
  numbered := numbered_createdSession id call floor
  positive := by simp [createdSession, Session.new]
  signed := by simp [createdSession, Session.new]
  unreserved := by simp [createdSession, Session.new]

variable {id}

theorem Sequenced.of_log_eq {host : PeerId} {s s' : Session} (h : Sequenced ed id host s)
    (hid : s'.id = s.id) (hhost : s'.host = s.host) (hlog : s'.log = s.log)
    (hhead : s'.head = s.head) : Sequenced ed id host s' where
  id_eq := hid.trans h.id_eq
  host_eq := hhost.trans h.host_eq
  numbered := numbered_of_log_eq h.numbered hlog hhead
  positive := by rw [hlog]; exact h.positive
  signed := by rw [hlog]; exact h.signed
  unreserved := by rw [hlog]; exact h.unreserved

variable {d} {key : ed.SigningKey}

theorem Sequenced.commitSend {s : Session} (h : Sequenced ed id d.peerId s)
    (hkey : d.signingKey = some key) (hident : d.Identified) {nowMs : UInt64} {draft : Draft}
    {m : SessionMessage} (hstamp : draft.Stamped d)
    (hres : ¬(draft.kind = .system ∧ (reservedSystemAction draft.action).isSome = true))
    (hprep : prepareSend d s nowMs draft = .ok m) :
    Sequenced ed id d.peerId (commitSend s m) := by
  have hm := prepareSend_ok d hprep
  have hmem : ∀ x ∈ s.log ++ [m], x ∈ s.log ∨ x = m := by simp
  refine ⟨h.id_eq, h.host_eq, numbered_commitSend h.numbered hm, ?_, ?_, ?_⟩
  · intro x hx
    obtain hx | rfl := hmem x hx
    · exact h.positive x hx
    · exact (Seq.lt_next_iff _ _ _ hm.seq).mpr (Seq.zero_le _)
  · intro x hx
    obtain hx | rfl := hmem x hx
    · exact h.signed x hx
    · rw [← h.id_eq]
      exact prepareSend_verified hkey hident hstamp hprep
  · intro x hx
    obtain hx | rfl := hmem x hx
    · exact h.unreserved x hx
    · unfold isReserved
      rw [hm.kind, hm.action]
      simpa using hres

/-- The registry's entry and the store agree on what sends have built. -/
inductive Good (ed : Ed25519) (id : SessionId) (host : PeerId) : HostState → Prop
  | absent {s : HostState} (hmem : s.memory = none) (hdir : s.disk.dir = none) : Good ed id host s
  | hosted {s : HostState} {session : Session} (hmem : s.memory = some session)
      (hseq : Sequenced ed id host session) (hkind : session.kind = .Local)
      (hdisk : Filed host .Local session.log s.disk) : Good ed id host s

theorem good_host {s : HostState} (hs : Good ed id d.peerId s) {call : HostCall}
    (hpeer : call.peer = d.peerId) : Good ed id d.peerId (s.host id call) := by
  cases hs with
  | absent hmem hdir =>
    obtain ⟨floor, disk₀, hfloor, hdir₀⟩ :
        ∃ floor disk₀, epochFloor s.disk = (.ok floor, disk₀) ∧ disk₀.dir = none :=
      ⟨_, _, rfl, hdir⟩
    obtain ⟨disk', hcreate, hfiled⟩ :=
      filed_create hdir₀ (createdSession id call floor).record rfl rfl
    have hhost : s.host id call =
        { s with memory := some (createdSession id call floor), disk := disk' } := by
      simp only [HostState.host, hmem, hfloor, hcreate]
    have hpeer' : (createdSession id call floor).record.host = d.peerId := hpeer
    rw [hpeer'] at hfiled
    rw [hhost]
    exact .hosted rfl (sequenced_created d id hpeer floor) rfl hfiled
  | hosted hmem hseq hkind hdisk =>
    rename_i session
    obtain ⟨disk₁, hput, hfiled₁⟩ := hdisk.putTickets (session.tickets ++ [ledgerEntry call])
    obtain ⟨disk₂, hbump, hfiled₂⟩ := hfiled₁.bumpHostEpoch (nextEpoch session.hostEpoch)
    have hours : ¬(session.host ≠ call.peer ∨ session.kind ≠ .Local) := by
      simp [hseq.host_eq, hpeer, hkind]
    have hhost : s.host id call =
        { s with memory := some (resumedSession session call), disk := disk₂ } := by
      simp only [HostState.host, hmem, if_neg hours, hput, hbump]
    rw [hhost]
    exact .hosted rfl (hseq.of_log_eq rfl rfl rfl rfl) hkind hfiled₂

theorem good_send {s : HostState} (hs : Good ed id d.peerId s) (hkey : d.signingKey = some key)
    (hident : d.Identified) (nowMs : UInt64) {draft : Draft} (hstamp : draft.Stamped d) :
    Good ed id d.peerId (HostState.send d s nowMs draft none) := by
  by_cases hres : draft.kind = .system ∧ (reservedSystemAction draft.action).isSome = true
  · rwa [HostState.send, if_pos hres]
  rw [HostState.send, if_neg hres]
  cases hs with
  | absent hmem hdir =>
    rw [hmem]
    exact .absent hmem hdir
  | hosted hmem hseq hkind hdisk =>
    rename_i session
    rw [hmem]
    dsimp only
    cases hprep : prepareSend d session nowMs draft with
    | error e => exact .hosted hmem hseq hkind hdisk
    | ok m =>
      obtain ⟨disk', happ, hfiled⟩ := hdisk.append (prepareSend_ok d hprep).size
      simp only [happ]
      exact .hosted rfl (hseq.commitSend hkey hident hstamp hres hprep) hkind hfiled

theorem good_ensureMember {s : HostState} (hs : Good ed id d.peerId s) (peer : PeerId) :
    Good ed id d.peerId (s.ensureMember peer) := by
  cases hs with
  | absent hmem hdir =>
    rw [HostState.ensureMember, hmem]
    exact .absent hmem hdir
  | hosted hmem hseq hkind hdisk =>
    rename_i session
    obtain ⟨disk', hadd, hfiled⟩ := hdisk.updateMembers (insert peer)
    rw [HostState.ensureMember, hmem]
    dsimp only
    split
    · exact .hosted hmem hseq hkind hdisk
    · simp only [addMember, hadd]
      exact .hosted rfl (hseq.of_log_eq rfl rfl rfl rfl) hkind hfiled

theorem good_leave {s : HostState} (hs : Good ed id d.peerId s) (peer : PeerId) :
    Good ed id d.peerId (s.leave peer) := by
  cases hs with
  | absent hmem hdir =>
    rw [HostState.leave, hmem]
    exact .absent hmem hdir
  | hosted hmem hseq hkind hdisk =>
    rename_i session
    obtain ⟨disk', hremove, hfiled⟩ := hdisk.updateMembers fun members => members.erase peer
    rw [HostState.leave, hmem]
    dsimp only
    split
    · exact .hosted hmem hseq hkind hdisk
    · split
      · exact .absent rfl rfl
      · simp only [removeMember, hremove]
        exact .hosted rfl (hseq.of_log_eq rfl rfl rfl rfl) hkind hfiled

theorem Sequenced.verifyMessage {host : PeerId} {s : Session} (h : Sequenced ed id host s) :
    ∀ m ∈ s.log, Signing.verifyMessage ed id m m.signature = .ok () :=
  fun m hm => Reload.verifyMessage_of_verifyFrame ed id host m (h.signed m hm)

theorem good_restart {s : HostState} {host : PeerId} (hs : Good ed id host s) :
    Good ed id host (s.restart ed id none) := by
  cases hs with
  | absent hmem hdir =>
    simp only [HostState.restart, load, hdir]
    exact .absent rfl hdir
  | hosted hmem hseq hkind hdisk =>
    rename_i session
    obtain ⟨r, disk', hload, hid, hhost, hlocal, hlog, hhead, hfiled⟩ :=
      hdisk.load ed id true hseq.numbered.size fun _ => hseq.verifyMessage
    simp only [HostState.restart, hload]
    have hback : Sequenced ed id host (.fromRecord r) := by
      refine ⟨hid, hhost, ⟨?_, ?_, ?_⟩, ?_, ?_, ?_⟩
      all_goals simp only [Session.fromRecord, hlog]
      · exact hseq.numbered.ascending
      · exact hhead
      · exact hseq.numbered.size
      · exact hseq.positive
      · exact hseq.signed
      · exact hseq.unreserved
    rw [← hlog] at hfiled
    exact .hosted rfl hback hlocal hfiled

theorem good_hostRun (hkey : d.signingKey = some key) (hident : d.Identified)
    (floor : Option UInt64) {ops : List HostOp} (hops : ∀ op ∈ ops, Allowed d op) :
    Good ed id d.peerId (hostRun d id floor ops) := by
  have hstep : ∀ s op, Good ed id d.peerId s → Allowed d op →
      Good ed id d.peerId (HostState.step d id s op) := by
    intro s op hs hop
    cases op with
    | host call => exact good_host hs hop
    | send nowMs draft fault =>
      obtain ⟨hstamp, rfl⟩ := hop
      exact good_send hs hkey hident nowMs hstamp
    | ensureMember peer => exact good_ensureMember hs peer
    | leave peer => exact good_leave hs peer
    | restart skipped =>
      obtain rfl := hop
      exact good_restart hs
  exact (Along.of_mem hops).invariant hstep (.absent rfl rfl)

end HostLog

section Mirrors

variable {ed : Ed25519} {id : SessionId} {host : PeerId}

/-- A mirror of the host whose log has exactly the frames in `seen`. -/
def Has (ed : Ed25519) (id : SessionId) (host : PeerId) (s : Reload.State)
    (seen : SessionMessage → Prop) : Prop :=
  ∃ session file, Reload.Stored ed id s session file ∧ session.host = host ∧
    ∀ m, m ∈ session.log ↔ seen m

theorem has_joined (epoch : UInt64) (floor : Option UInt64) :
    Has ed id host (Reload.joined id host epoch floor) fun _ => False :=
  ⟨_, [], Reload.joined_stored ed id host epoch floor, rfl, by simp [Session.new]⟩

theorem has_arrive {log : List SessionMessage} (hlog : Ascending SessionMessage.seq log)
    {s : Reload.State} {seen : SessionMessage → Prop} (h : Has ed id host s seen)
    (hseen : ∀ m, seen m → m ∈ log) {m : SessionMessage} (hm : m ∈ log)
    (hv : verifyFrame ed host id m = .ok ()) (hsize : (encodeMessage m).length ≤ MAX_FRAME_SIZE) :
    Has ed id host (Reload.step ed id s (.arrive m)) fun x => seen x ∨ x = m := by
  obtain ⟨session, file, hst, hhost, hmem⟩ := h
  obtain ⟨session', file', hst', -⟩ := Reload.arrive_stored ed id hst m
  obtain ⟨dir, doc, hdir, hfile, hdoc, -⟩ := hst.disk
  obtain ⟨a, b, -, -, -, hacc⟩ := mirrorAccepts_of_ascending ed session m hst.ascending
  rw [hhost, hst.id_eq, hv] at hacc
  have hmirror := hst'.mirror
  by_cases hdup : m.seq ∈ session.log.map SessionMessage.seq
  · -- the entry with its seq is the frame itself: both are in the host's log
    obtain ⟨x, hx, hseq⟩ := mem_map.mp hdup
    obtain rfl := hlog.eq_of_key_eq _ (hseen x ((hmem x).mp hx)) hm hseq
    rw [if_pos hdup] at hacc
    simp only [Reload.step, hst.mirror, Reload.applyInbound, hacc, Option.some.injEq] at hmirror
    obtain rfl := hmirror
    refine ⟨session, file', hst', hhost, fun y => ?_⟩
    rw [hmem y]
    constructor
    · exact .inl
    · rintro (hy | rfl)
      · exact hy
      · exact (hmem y).mp hx
  · rw [if_neg hdup] at hacc
    have hperm := (mirrorInsert_of_accepts ed session m _ hst.ascending hacc).2.1
    simp only [Reload.step, hst.mirror, Reload.applyInbound, hacc,
      append_none hdir hfile hdoc hsize, Option.some.injEq] at hmirror
    obtain rfl := hmirror
    refine ⟨_, file', hst', hhost, fun y => ?_⟩
    rw [hperm.mem_iff, mem_append, mem_singleton, hmem y]

theorem has_arrivals {log : List SessionMessage} (hlog : Ascending SessionMessage.seq log)
    (hv : ∀ m ∈ log, verifyFrame ed host id m = .ok ())
    (hsize : ∀ m ∈ log, (encodeMessage m).length ≤ MAX_FRAME_SIZE) :
    ∀ (frames : List SessionMessage) {s : Reload.State} {seen : SessionMessage → Prop},
      Has ed id host s seen → (∀ m, seen m → m ∈ log) → (∀ m ∈ frames, m ∈ log) →
        Has ed id host ((frames.map Reload.Op.arrive).foldl (Reload.step ed id) s)
          fun x => seen x ∨ x ∈ frames
  | [], s, seen, h, _, _ => by simpa using h
  | m :: frames, s, seen, h, hseen, hframes => by
    have hm : m ∈ log := hframes m mem_cons_self
    have hstep := has_arrive hlog h hseen hm (hv m hm) (hsize m hm)
    have hseen' : ∀ x, seen x ∨ x = m → x ∈ log := by
      rintro x (hx | rfl)
      · exact hseen x hx
      · exact hm
    have hrest := has_arrivals hlog hv hsize frames hstep hseen'
      fun x hx => hframes x (mem_cons_of_mem m hx)
    simpa [or_assoc] using hrest

/-- The log of a mirror after a join and the arrival of some frames. -/
def mirrorLog (ed : Ed25519) (id : SessionId) (host : PeerId) (epoch : UInt64)
    (floor : Option UInt64) (frames : List SessionMessage) : Option (List SessionMessage) :=
  ((frames.map Reload.Op.arrive).foldl (Reload.step ed id)
    (Reload.joined id host epoch floor)).mirror.map Session.log

theorem mirrorLog_eq_filter {s : Session} (h : Sequenced ed id host s) (epoch : UInt64)
    (floor : Option UInt64) {frames : List SessionMessage} {p : SessionMessage → Bool}
    (hframes : ∀ m, m ∈ frames ↔ m ∈ s.log ∧ p m = true) :
    mirrorLog ed id host epoch floor frames = some (s.log.filter p) := by
  have hsub : ∀ m ∈ frames, m ∈ s.log := fun m hm => ((hframes m).mp hm).1
  obtain ⟨session, file, hst, -, hmem⟩ := has_arrivals h.numbered.ascending h.signed
    h.numbered.size frames (has_joined epoch floor) (fun _ hf => hf.elim) hsub
  have hasc : Ascending SessionMessage.seq (s.log.filter p) :=
    h.numbered.ascending.sublist _ filter_sublist
  have hperm : session.log.Perm (s.log.filter p) := by
    rw [perm_ext_iff_of_nodup (hst.ascending.nodup_map _).of_map (hasc.nodup_map _).of_map]
    intro m
    rw [hmem m, mem_filter, ← hframes m]
    simp
  rw [mirrorLog, hst.mirror, Option.map_some, hst.ascending.eq_of_perm _ hasc hperm]

end Mirrors

/-- One complete replay from zero, and any of the live broadcasts, in any order and number. -/
def ReplayedAndLive (s : Session) (frames : List SessionMessage) : Prop :=
  (∀ m ∈ logSince s Seq.ZERO, m ∈ frames) ∧
    ∀ m ∈ frames, m ∈ logSince s Seq.ZERO ∨ m ∈ broadcasts s

/-- One complete replay from zero, in any order and with any duplication. -/
def ReplayedOnly (s : Session) (frames : List SessionMessage) : Prop :=
  ∀ m, m ∈ frames ↔ m ∈ logSince s Seq.ZERO

section Agreement

variable {ed : Ed25519} {d : Daemon ed} {id : SessionId} {s : Session}

theorem mem_logSince_iff {host : PeerId} (h : Sequenced ed id host s) (m : SessionMessage) :
    m ∈ logSince s Seq.ZERO ↔ m ∈ broadcasts s ∧ ¬Withheld m := by
  simp only [logSince, broadcasts, mem_filter, Bool.and_eq_true, decide_eq_true_eq, ne_eq,
    Bool.not_eq_true']
  constructor
  · rintro ⟨hm, ⟨-, hcap⟩, hkeep⟩
    refine ⟨⟨hm, hcap⟩, fun ⟨hsys, hact⟩ => ?_⟩
    obtain hact | hact := hact <;> simp [hsys, hact, unicastOnly] at hkeep
  · rintro ⟨⟨hm, hcap⟩, hnot⟩
    refine ⟨hm, ⟨h.positive m hm, hcap⟩, ?_⟩
    have hfree := h.unreserved m hm
    by_cases hsys : m.kind = .system
    · simp only [isReserved, reservedSystemAction, hsys, decide_true, Bool.true_and] at hfree
      simp only [Withheld, hsys, true_and, not_or] at hnot
      have hticket : m.action ≠ TICKET_ACTION := by
        rintro heq
        simp [heq] at hfree
      have hupgrade : m.action ≠ UPGRADE_ACTION := by
        rintro heq
        rw [heq] at hticket hfree
        simp [hticket] at hfree
      simp [unicastOnly, hticket, hupgrade, hnot.1, hnot.2]
    · simp [hsys]

/-- Mirrors agree after a replay unless the log has a downgrade or a rotate. -/
theorem mirrors_agree_iff {key : ed.SigningKey} (hkey : d.signingKey = some key)
    (hident : d.Identified) (floor : Option UInt64) (ops : List HostOp)
    (hops : ∀ op ∈ ops, Allowed d op) (hmem : (hostRun d id floor ops).memory = some s) :
    (∀ (epoch epoch' : UInt64) (floor floor' : Option UInt64) (xs ys : List SessionMessage),
        ReplayedAndLive s xs → ReplayedOnly s ys →
          mirrorLog ed id d.peerId epoch floor xs = mirrorLog ed id d.peerId epoch' floor' ys ∧
            mirrorLog ed id d.peerId epoch' floor' ys =
              some (s.log.filter fun m => m.kind ≠ .capability)) ↔
      ∀ m ∈ s.log, ¬Withheld m := by
  have hgood : Good ed id d.peerId (hostRun d id floor ops) :=
    good_hostRun hkey hident floor hops
  cases hgood with
  | absent hnone _ =>
    rw [hnone] at hmem
    cases hmem
  | hosted hmem' hseq _ _ =>
    rw [hmem] at hmem'
    obtain rfl := Option.some.inj hmem'
    constructor
    · intro hagree m hm hheld
      -- all the live broadcasts on one side, the replay alone on the other
      have hlive : ReplayedAndLive s (broadcasts s) :=
        ⟨fun x hx => ((mem_logSince_iff hseq x).mp hx).1, fun x hx => .inr hx⟩
      have hys := (hagree 0 0 none none _ (logSince s Seq.ZERO) hlive fun x => Iff.rfl).2
      have hreplay : mirrorLog ed id d.peerId 0 none (logSince s Seq.ZERO) =
          some (logSince s Seq.ZERO) := mirrorLog_eq_filter hseq 0 none fun x => mem_filter
      rw [hreplay] at hys
      have hcap : m.kind ≠ .capability := by
        rw [hheld.1]
        decide
      have hback : m ∈ logSince s Seq.ZERO := by
        rw [Option.some.inj hys]
        exact mem_filter.mpr ⟨hm, by simpa using hcap⟩
      exact ((mem_logSince_iff hseq m).mp hback).2 hheld
    · intro hnone epoch epoch' floor floor' xs ys hxs hys
      have hsame : ∀ m, m ∈ logSince s Seq.ZERO ↔ m ∈ broadcasts s := by
        intro m
        rw [mem_logSince_iff hseq m]
        exact ⟨And.left, fun hm => ⟨hm, hnone m (mem_of_mem_filter hm)⟩⟩
      have hx : ∀ m, m ∈ xs ↔ m ∈ s.log ∧ decide (m.kind ≠ .capability) = true := by
        intro m
        have hlive : m ∈ xs ↔ m ∈ broadcasts s :=
          ⟨fun hm => (hxs.2 m hm).elim (hsame m).mp fun h => h,
            fun hm => hxs.1 m ((hsame m).mpr hm)⟩
        rw [hlive, broadcasts, mem_filter]
      have hy : ∀ m, m ∈ ys ↔ m ∈ s.log ∧ decide (m.kind ≠ .capability) = true := by
        intro m
        rw [hys m, hsame m, broadcasts, mem_filter]
      rw [mirrorLog_eq_filter hseq epoch floor hx, mirrorLog_eq_filter hseq epoch' floor' hy]
      exact ⟨rfl, rfl⟩

end Agreement

open Sample

def sampleRun (draft : Draft) : HostState :=
  hostRun daemon session none [.host call, .send 0 draft none]

/-- A session with a chat message. -/
theorem mirrors_agree_chat :
    ∃ s, (sampleRun (note [1])).memory = some s ∧
      ∀ (epoch epoch' : UInt64) (floor floor' : Option UInt64) (xs ys : List SessionMessage),
        ReplayedAndLive s xs → ReplayedOnly s ys →
          mirrorLog .checksum session (peer 0) epoch floor xs =
              mirrorLog .checksum session (peer 0) epoch' floor' ys ∧
            mirrorLog .checksum session (peer 0) epoch' floor' ys =
              some (s.log.filter fun m => m.kind ≠ .capability) := by
  have hlog : (sampleRun (note [1])).memory.map Session.log =
      some [message 0 1 .chat "" [1]] := by
    decide +kernel
  obtain ⟨s, hs, hlog⟩ := Option.map_eq_some_iff.mp hlog
  refine ⟨s, hs, ?_⟩
  refine (mirrors_agree_iff (d := daemon) rfl identified none
    [.host call, .send 0 (note [1]) none] (by decide) hs).mpr ?_
  rw [hlog]
  decide

/-- A client may send `workspace.downgrade`, which is not reserved. -/
def downgrade : Draft := ⟨info 0, .system, DOWNGRADE_ACTION, [], .Local⟩

def downgraded : SessionMessage := message 0 1 .system DOWNGRADE_ACTION []

/-- The joiner that was there has it, the one that comes later never gets it. -/
theorem downgrade_not_replayed :
    ∃ s xs ys, (sampleRun downgrade).memory = some s ∧ ReplayedAndLive s xs ∧ ReplayedOnly s ys ∧
      mirrorLog .checksum session (peer 0) 0 none xs = some [downgraded] ∧
      mirrorLog .checksum session (peer 0) 0 none ys = some [] := by
  have hlog : (sampleRun downgrade).memory.map Session.log = some [downgraded] := by
    decide +kernel
  obtain ⟨s, hs, hlog⟩ := Option.map_eq_some_iff.mp hlog
  have hreplay : logSince s Seq.ZERO = [] := by
    rw [logSince, hlog]
    decide +kernel
  have hlive : broadcasts s = [downgraded] := by
    rw [broadcasts, hlog]
    decide +kernel
  refine ⟨s, [downgraded], [], hs, ⟨?_, ?_⟩, ?_, ?_, ?_⟩
  · simp [hreplay]
  · simp [hlive]
  · simp [ReplayedOnly, hreplay]
  · decide +kernel
  · decide +kernel

end Artel.Backfill
