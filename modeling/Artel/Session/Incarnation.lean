import Artel.Lib.Run
import Artel.Protocol.Scopes
import Artel.Session.Host
import Artel.Session.Reload

namespace Artel.Incarnation

open Store Signing

/-- A host's calls, a join of its incarnation, and frames that reach the mirror. -/
inductive Event
  | host (op : HostOp)
  | join (floor : Option UInt64)
  | deliver (m : SessionMessage)

structure State where
  host : HostState
  mirror : Reload.State
  /-- Each frame the mirror accepted, with the log of the host's incarnation at that time. -/
  accepted : List (SessionMessage × List SessionMessage)

variable {ed : Ed25519} (d : Daemon ed) (id : SessionId)

def currentLog (h : HostState) : List SessionMessage := (h.memory.map Session.log).getD []

def step (s : State) : Event → State
  | .host op => { s with host := HostState.step d id s.host op }
  | .join floor =>
    match s.host.memory with
    | none => s
    | some session => { s with mirror := Reload.joined id session.host session.hostEpoch floor }
  | .deliver m =>
    let next := Reload.step ed id s.mirror (.arrive m)
    if next.applied = s.mirror.applied then { s with mirror := next }
    else { s with mirror := next, accepted := s.accepted ++ [(m, currentLog s.host)] }

def start (floor : Option UInt64) : State :=
  ⟨⟨none, ⟨none, floor⟩, []⟩, ⟨none, ⟨none, none⟩, []⟩, []⟩

/-- The calls of the history, with a disk that does not fail. -/
def Calm : HostOp → Prop
  | .send _ _ fault => fault = none
  | .restart _ => False
  | _ => True

/-- A host signature that verifies is the host's, an author's is for one body. -/
structure Unforged (ed : Ed25519) (s : State) (m : SessionMessage) : Prop where
  sequenced : ∀ session ∈ s.mirror.mirror,
    verifySeq ed session.host session.id m.seq m.signature m.hostSig = .ok () →
      ∃ b ∈ s.host.acked, b.hostSig = m.hostSig ∧
        seqCanonicalBytes id b.seq b.signature = seqCanonicalBytes id m.seq m.signature
  bound : ∀ b ∈ s.host.acked, ∀ p q, b.signature = m.signature →
    ed.verifyStrict p (messageScope id b) b.signature = true →
    ed.verifyStrict q (messageScope id m) m.signature = true →
      messageScope id b = messageScope id m

/-- No frame is delivered that only an earlier incarnation sequenced. -/
def CurrentOnly (s : State) (m : SessionMessage) : Prop :=
  ∀ b ∈ s.host.acked, b.seq = m.seq → b.signature = m.signature → b ∈ currentLog s.host

def Allowed (ed : Ed25519) (s : State) : Event → Prop
  | .host op => Calm op
  | .join _ => True
  | .deliver m => Unforged id ed s m ∧ CurrentOnly s m

/-- The frame is, up to the display name, the one message the log has at its seq. -/
def Matches (m : SessionMessage) (log : List SessionMessage) : Prop :=
  ∃ b ∈ log, b.seq = m.seq ∧ anonymous b = anonymous m ∧ ∀ c ∈ log, c.seq = m.seq → c = b

structure Sound (ed : Ed25519) (s : State) : Prop where
  memory : ∀ session ∈ s.host.memory, session.id = id ∧ Numbered session
  sequenced : ∀ b ∈ s.host.acked, (encodeMessage b).length ≤ MAX_FRAME_SIZE ∧
    (b.signature = SIGNATURE_UNSIGNED ∨
      ∃ p, ed.verifyStrict p (messageScope id b) b.signature = true)
  mirror : ∀ session ∈ s.mirror.mirror, session.id = id
  accepted : ∀ x ∈ s.accepted, Matches x.1 x.2

theorem sound_start (floor : Option UInt64) : Sound id ed (start floor) :=
  ⟨by simp [start], by simp [start], by simp [start], by simp [start]⟩

theorem sound_of_entry {s : State} {h : HostState} (hs : Sound id ed s)
    (hacked : h.acked = s.host.acked) (hentry : HostState.Entry id s.host.memory h.memory) :
    Sound id ed { s with host := h } := by
  refine ⟨?_, by rw [hacked]; exact hs.sequenced, hs.mirror, hs.accepted⟩
  intro session hsession
  rw [Option.mem_def] at hsession
  rw [hsession] at hentry
  cases hentry with
  | kept hold hid hlog hhead =>
    obtain ⟨hold_id, hnum⟩ := hs.memory _ hold
    exact ⟨hid.trans hold_id, numbered_of_log_eq hnum hlog hhead⟩
  | created call floor => exact ⟨rfl, numbered_createdSession id call floor⟩

theorem sound_send {s : State} (hs : Sound id ed s) (nowMs : UInt64) (draft : Draft) :
    Sound id ed { s with host := HostState.send d s.host nowMs draft none } := by
  obtain heq | ⟨session, m, hmem, hm, ⟨e, -, heq⟩ | ⟨-, heq⟩⟩ :=
    HostState.send_cases d s.host nowMs draft none <;> rw [heq]
  · exact hs
  · exact ⟨hs.memory, hs.sequenced, hs.mirror, hs.accepted⟩
  obtain ⟨hid, hnum⟩ := hs.memory session hmem
  refine ⟨?_, ?_, hs.mirror, hs.accepted⟩
  · intro x hx
    obtain rfl := Option.some.inj hx
    exact ⟨hid, numbered_commitSend hnum hm⟩
  · intro b hb
    obtain hb | hb := List.mem_append.mp hb
    · exact hs.sequenced b hb
    · obtain rfl := List.mem_singleton.mp hb
      rw [← hid]
      exact ⟨hm.size, hm.signed⟩

theorem sound_host {s : State} (hs : Sound id ed s) (op : HostOp) (hc : Calm op) :
    Sound id ed (step d id s (.host op)) := by
  cases op with
  | host call =>
    obtain ⟨hacked, -, hentry⟩ := HostState.host_cases id s.host call
    exact sound_of_entry id hs hacked hentry
  | send nowMs draft fault =>
    obtain rfl : fault = none := hc
    exact sound_send d id hs nowMs draft
  | ensureMember peer =>
    obtain ⟨hacked, -, hentry⟩ := HostState.ensureMember_cases id s.host peer
    exact sound_of_entry id hs hacked hentry
  | leave peer =>
    obtain ⟨hacked, hentry⟩ := HostState.leave_cases id s.host peer
    exact sound_of_entry id hs hacked hentry
  | restart skipped => exact hc.elim

theorem short_fields {m : SessionMessage} (h : (encodeMessage m).length ≤ MAX_FRAME_SIZE) :
    (utf8 m.action).length < 2 ^ 32 ∧ m.payload.length < 2 ^ 32 := by
  obtain ⟨haction, hpayload⟩ := length_le_encodeMessage m
  have hmax : MAX_FRAME_SIZE < 2 ^ 32 := by decide
  omega

theorem mem_currentLog {h : HostState} {b : SessionMessage} (hb : b ∈ currentLog h) :
    ∃ session ∈ h.memory, currentLog h = session.log := by
  unfold currentLog at hb ⊢
  cases hmem : h.memory with
  | none => simp [hmem] at hb
  | some session => exact ⟨session, rfl, rfl⟩

theorem matches_of_verified {s : State} (hs : Sound id ed s) {m : SessionMessage} {session : Session}
    (hmem : session ∈ s.mirror.mirror) (hu : Unforged id ed s m) (hcur : CurrentOnly s m)
    (hv : verifyFrame ed session.host session.id m = .ok ())
    (hsize : (encodeMessage m).length ≤ MAX_FRAME_SIZE) : Matches m (currentLog s.host) := by
  have hid := hs.mirror session hmem
  unfold verifyFrame at hv
  split at hv
  · cases hv
  rename_i hauthor
  -- the host signature leads to a message the host sequenced, with this seq and author signature
  obtain ⟨b, hb, hhost, hbytes⟩ := hu.sequenced session hmem hv
  obtain ⟨-, hseq, hsig⟩ := seqCanonicalBytes_injective hbytes
  have hlog := hcur b hb hseq hsig
  obtain ⟨hbsize, hbsigned⟩ := hs.sequenced b hb
  rw [hid, verifyMessage_ok_iff, verifyScope_ok_iff] at hauthor
  obtain ⟨-, -, hstrict⟩ := hauthor
  -- and that author signature stands for one body
  have hscope : messageScope id b = messageScope id m := by
    obtain hzero | ⟨p, hp⟩ := hbsigned
    · rw [← hsig, hzero, ed.verifyStrict_unsigned] at hstrict
      cases hstrict
    · exact hu.bound b hb p _ hsig hp hstrict
  refine ⟨b, hlog, hseq, ?_, ?_⟩
  · exact anonymous_eq id (short_fields hbsize) (short_fields hsize) hscope hseq hsig hhost
  · intro c hc hcseq
    obtain ⟨host, hhostmem, heq⟩ := mem_currentLog hlog
    rw [heq] at hlog hc
    exact (hs.memory host hhostmem).2.ascending.eq_of_key_eq _ hc hlog (hcseq.trans hseq.symm)

theorem sound_deliver {s : State} (hs : Sound id ed s) (m : SessionMessage)
    (ha : Allowed id ed s (.deliver m)) : Sound id ed (step d id s (.deliver m)) := by
  obtain ⟨hu, hcur⟩ := ha
  obtain ⟨hmirror, happlied⟩ | ⟨session, pos, hmem, hnext, hv, hsize⟩ :=
    Reload.arrive_cases ed id s.mirror m
  · simp only [step, happlied, if_pos]
    exact ⟨hs.memory, hs.sequenced, by rw [hmirror]; exact hs.mirror, hs.accepted⟩
  have hmatch := matches_of_verified id hs hmem hu hcur hv hsize
  have hmirror : ∀ x ∈ (Reload.step ed id s.mirror (.arrive m)).mirror, x.id = id := by
    intro x hx
    rw [hnext] at hx
    obtain rfl := Option.some.inj hx
    exact hs.mirror session hmem
  unfold step
  dsimp only
  split
  · exact ⟨hs.memory, hs.sequenced, hmirror, hs.accepted⟩
  refine ⟨hs.memory, hs.sequenced, hmirror, ?_⟩
  intro x hx
  obtain hx | hx := List.mem_append.mp hx
  · exact hs.accepted x hx
  · rw [List.mem_singleton.mp hx]
    exact hmatch

/-- Unless an earlier incarnation's frames are delivered, mirrors accept the host's log. -/
theorem accepted_matches (floor : Option UInt64) (events : List Event)
    (h : Along (step d id) (Allowed id ed) (start floor) events) :
    ∀ x ∈ (events.foldl (step d id) (start floor)).accepted, Matches x.1 x.2 := by
  have hstep : ∀ s e, Sound id ed s → Allowed id ed s e → Sound id ed (step d id s e) := by
    rintro s (op | floor | m) hs ha
    · exact sound_host d id hs op ha
    · unfold step
      dsimp only
      split
      · exact hs
      · refine ⟨hs.memory, hs.sequenced, ?_, hs.accepted⟩
        intro x hx
        obtain rfl := Option.some.inj hx
        rfl
    · exact sound_deliver d id hs m ha
  exact (h.invariant hstep (sound_start id floor)).accepted

open Sample

def run (events : List Event) : State :=
  events.foldl (step daemon session) (start none)

/-- The host creates the session, sends, and a joiner receives the frame. -/
def firstFrame : List Event :=
  [.host (.host call), .host (.send 0 (note [1]) none), .join none,
    .deliver (message 0 1 .chat "" [1])]

theorem accepted_matches_first :
    (message 0 1 .chat "" [1], [message 0 1 .chat "" [1]]) ∈
        (run firstFrame).accepted ∧
      Matches (message 0 1 .chat "" [1]) [message 0 1 .chat "" [1]] := by
  have hguard : ∀ (s : State) (m : SessionMessage), s.host.acked = [m] →
      currentLog s.host = [m] → Unforged session .checksum s m ∧ CurrentOnly s m := by
    intro s m hacked hlog
    refine ⟨⟨fun _ _ _ => ⟨m, by simp [hacked], rfl, rfl⟩, ?_⟩, ?_⟩
    · intro b hb
      rw [hacked, List.mem_singleton] at hb
      simp [hb]
    · intro b hb _ _
      rwa [hlog, ← hacked]
  have hmem : (message 0 1 .chat "" [1], [message 0 1 .chat "" [1]]) ∈
      (run firstFrame).accepted := by
    decide +kernel
  exact ⟨hmem, accepted_matches daemon session none firstFrame
    ⟨trivial, rfl, trivial, hguard _ _ (by decide +kernel) (by decide +kernel), trivial⟩ _ hmem⟩

/-- A frame of an earlier incarnation is accepted in place of another. -/
theorem earlier_incarnation_accepted :
    message 0 1 .chat "" [1] ∈ (run [.host (.host call),
        .host (.send 0 (note [1]) none)]).host.acked ∧
      (run [.host (.host call), .host (.send 0 (note [1]) none),
        .host (.leave (peer 0)), .host (.host call),
        .host (.send 0 (note [2]) none), .join none,
        .deliver (message 0 1 .chat "" [1])]).accepted =
        [(message 0 1 .chat "" [1], [message 0 1 .chat "" [2]])] ∧
      ¬ Matches (message 0 1 .chat "" [1]) [message 0 1 .chat "" [2]] := by
  refine ⟨by decide +kernel, by decide +kernel, ?_⟩
  rintro ⟨b, hb, -, heq, -⟩
  rw [List.mem_singleton.mp hb] at heq
  exact absurd (congrArg SessionMessage.payload heq) (by decide)

end Artel.Incarnation
