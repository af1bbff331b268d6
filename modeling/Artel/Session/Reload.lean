import Artel.Session.Mirror

namespace Artel.Reload

open Store List

/-- What a remote mirror sees: frames, and restarts of the daemon that holds it. -/
inductive Op
  | arrive (m : SessionMessage)
  | restart
  deriving DecidableEq

structure State where
  mirror : Option Session
  disk : Disk
  /-- The seqs of the frames applied so far, in the order of their arrival. -/
  applied : List Seq

variable (ed : Ed25519) (id : SessionId)

/-- `apply_inbound_mirror_message`: persisted first, and dropped if that fails. -/
def applyInbound (s : State) (session : Session) (m : SessionMessage) : State :=
  match mirrorAccepts ed session m with
  | none => s
  | some pos =>
    match append none m s.disk with
    | (.error _, disk) => { s with disk := disk }
    | (.ok _, disk) => ⟨some (mirrorInsert session pos m), disk, s.applied ++ [m.seq]⟩

def step (s : State) : Op → State
  | .arrive m =>
    match s.mirror with
    | none => s
    | some session => applyInbound ed s session m
  | .restart =>
    match load ed id true s.disk with
    | (.error _, disk) => ⟨none, disk, s.applied⟩
    | (.ok r, disk) => ⟨some (.fromRecord r), disk, s.applied⟩

def joined (host : PeerId) (epoch : UInt64) (floor : Option UInt64) : State :=
  let session := { Session.new id host .Remote with hostEpoch := epoch }
  ⟨some session, (create session.record ⟨none, floor⟩).2, []⟩

/-- A frame that a restart still follows is a duplicate or above every seq of the log. -/
def InOrder : State → List Op → Prop
  | _, [] => True
  | s, .arrive m :: ops =>
    (.restart ∈ ops → ∀ session ∈ s.mirror, m.seq ∈ session.log.map SessionMessage.seq ∨
        ∀ x ∈ session.log, x.seq < m.seq) ∧
      InOrder (step ed id s (.arrive m)) ops
  | s, .restart :: ops => InOrder (step ed id s .restart) ops

/-- The mirror and the messages of its log file, in file order. -/
structure Stored (s : State) (session : Session) (file : List SessionMessage) : Prop where
  mirror : s.mirror = some session
  id_eq : session.id = id
  disk : ∃ dir doc, s.disk.dir = some dir ∧ dir.log = some (encodeLog file) ∧
    dir.metaJson = some doc ∧ doc.version = META_VERSION ∧ dir.workspaceTicket = none
  size : ∀ m ∈ file, (encodeMessage m).length ≤ MAX_FRAME_SIZE
  signed : ∀ m ∈ file, Signing.verifyMessage ed id m m.signature = .ok ()
  ascending : Ascending SessionMessage.seq session.log
  perm : session.log.Perm file
  applied : ∀ n ∈ s.applied, n ∈ session.log.map SessionMessage.seq

theorem joined_stored (host : PeerId) (epoch : UInt64) (floor : Option UInt64) :
    Stored ed id (joined id host epoch floor)
      { Session.new id host .Remote with hostEpoch := epoch } [] where
  mirror := rfl
  id_eq := rfl
  disk := ⟨_, _, rfl, rfl, rfl, rfl, rfl⟩
  size := by simp
  signed := by simp
  ascending := List.Pairwise.nil
  perm := List.Perm.nil
  applied := by simp [joined]

theorem verifyMessage_of_verifyFrame (host : PeerId) (m : SessionMessage)
    (h : verifyFrame ed host id m = .ok ()) :
    Signing.verifyMessage ed id m m.signature = .ok () := by
  unfold verifyFrame at h
  split at h
  · cases h
  · rename_i hv
    exact hv

theorem arrive_cases (s : State) (m : SessionMessage) :
    ((step ed id s (.arrive m)).mirror = s.mirror ∧
        (step ed id s (.arrive m)).applied = s.applied) ∨
      ∃ session pos, s.mirror = some session ∧
        (step ed id s (.arrive m)).mirror = some (mirrorInsert session pos m) ∧
        verifyFrame ed session.host session.id m = .ok () ∧
        (encodeMessage m).length ≤ MAX_FRAME_SIZE := by
  unfold step
  dsimp only
  split
  · exact .inl ⟨rfl, rfl⟩
  rename_i session hmem
  unfold applyInbound
  split
  · exact .inl ⟨rfl, rfl⟩
  rename_i pos hacc
  split
  · exact .inl ⟨rfl, rfl⟩
  · rename_i happ
    obtain ⟨hne, -⟩ | ⟨hsize, -⟩ := append_logBytes none m s.disk
    · rw [happ] at hne
      exact absurd rfl hne
    · exact .inr ⟨session, pos, hmem, rfl, verifyFrame_of_accepts ed hacc, hsize⟩

theorem arrive_stored {s : State} {session : Session} {file : List SessionMessage}
    (h : Stored ed id s session file) (m : SessionMessage) :
    ∃ session' file', Stored ed id (step ed id s (.arrive m)) session' file' ∧
      (file = session.log → (m.seq ∈ session.log.map SessionMessage.seq ∨
        ∀ x ∈ session.log, x.seq < m.seq) → file' = session'.log) := by
  obtain ⟨dir, doc, hdir, hlog, hdoc, hversion, hticket⟩ := h.disk
  simp only [step, h.mirror, applyInbound]
  cases hacc : mirrorAccepts ed session m with
  | none => exact ⟨session, file, h, fun hf _ => hf⟩
  | some pos =>
    obtain ⟨hasc, hperm, hv⟩ := mirrorInsert_of_accepts ed session m pos h.ascending hacc
    by_cases hsize : (encodeMessage m).length ≤ MAX_FRAME_SIZE
    · simp only [append_none hdir hlog hdoc hsize]
      refine ⟨mirrorInsert session pos m, file ++ [m], ?_, ?_⟩
      · have hmem : ∀ x ∈ file ++ [m], x ∈ file ∨ x = m := by simp
        exact
          { mirror := rfl
            id_eq := h.id_eq
            disk := ⟨_, _, rfl, rfl, rfl, hversion, hticket⟩
            size := fun x hx => by
              obtain hx | rfl := hmem x hx
              · exact h.size x hx
              · exact hsize
            signed := fun x hx => by
              obtain hx | rfl := hmem x hx
              · exact h.signed x hx
              · rw [h.id_eq] at hv
                exact verifyMessage_of_verifyFrame ed id session.host x hv
            ascending := hasc
            perm := hperm.trans (h.perm.append_right [m])
            applied := fun n hn => by
              rw [(hperm.map SessionMessage.seq).mem_iff, map_append, mem_append]
              obtain hn | hn := mem_append.mp hn
              · exact .inl (h.applied n hn)
              · exact .inr hn }
      · rintro rfl (hdup | habove)
        · rw [mirrorAccepts_eq_none_of_mem ed session m h.ascending hdup] at hacc
          cases hacc
        · have happ : Ascending SessionMessage.seq (session.log ++ [m]) :=
            (Ascending.append_singleton _).mpr ⟨h.ascending, habove⟩
          -- an ascending list is determined by its elements, so the insert was at the end
          exact (hasc.eq_of_perm _ happ hperm).symm
    · simp only [append_oversize m hdir hlog (Nat.lt_of_not_le hsize)]
      exact ⟨session, file, { h with mirror := rfl }, fun hf _ => hf⟩

theorem restart_stored {s : State} {session : Session} (h : Stored ed id s session session.log) :
    ∃ session', Stored ed id (step ed id s .restart) session' session'.log := by
  obtain ⟨dir, doc, hdir, hlog, hdoc, hversion, hticket⟩ := h.disk
  have hload := loadOne_ok ed id true dir hlog hdoc hversion (by simp [hticket]) h.size fun _ =>
    h.signed
  simp only [step, load, hdir, hload]
  refine ⟨_, rfl, rfl, ⟨_, doc, rfl, hlog, hdoc, hversion, hticket⟩, h.size, h.signed, h.ascending,
    List.Perm.refl _, h.applied⟩

theorem inOrder_stored : ∀ (ops : List Op) (s : State), InOrder ed id s ops →
    ∀ session file, Stored ed id s session file → (.restart ∈ ops → file = session.log) →
      ∃ session' file', Stored ed id (ops.foldl (step ed id) s) session' file'
  | [], s, _, session, file, h, _ => ⟨session, file, h⟩
  | .arrive m :: ops, s, hord, session, file, h, hfile => by
    obtain ⟨session', file', h', hkeep⟩ := arrive_stored ed id h m
    refine inOrder_stored ops _ hord.2 session' file' h' fun hr => ?_
    exact hkeep (hfile (mem_cons_of_mem _ hr)) (hord.1 hr session h.mirror)
  | .restart :: ops, s, hord, session, file, h, hfile => by
    obtain rfl := hfile mem_cons_self
    obtain ⟨session', h'⟩ := restart_stored ed id h
    exact inOrder_stored ops _ hord session' session'.log h' fun _ => rfl

theorem inOrder_left : ∀ (ops rest : List Op) (s : State), InOrder ed id s (ops ++ rest) →
    InOrder ed id s ops
  | [], _, _, _ => trivial
  | .arrive _ :: ops, rest, _, h =>
    ⟨fun hr => h.1 (mem_append_left rest hr), inOrder_left ops rest _ h.2⟩
  | .restart :: ops, rest, _, h => inOrder_left ops rest _ h

/-- The log ascends as long as no frame before a restart is out of order. -/
theorem log_ascending (host : PeerId) (epoch : UInt64) (floor : Option UInt64) (ops rest : List Op)
    (hord : InOrder ed id (joined id host epoch floor) (ops ++ rest)) :
    ∃ session, (ops.foldl (step ed id) (joined id host epoch floor)).mirror = some session ∧
      Ascending SessionMessage.seq session.log ∧
      ∀ n ∈ (ops.foldl (step ed id) (joined id host epoch floor)).applied,
        (session.log.map SessionMessage.seq).count n = 1 := by
  obtain ⟨session, file, h⟩ := inOrder_stored ed id ops _ (inOrder_left ed id ops rest _ hord) _ []
    (joined_stored ed id host epoch floor) fun _ => rfl
  refine ⟨session, h.mirror, h.ascending, fun n hn => ?_⟩
  exact count_eq_one_of_mem (h.ascending.nodup_map _) (h.applied n hn)

open Sample

def chat (seq : UInt64) : SessionMessage := message 1 seq .chat "chat.message" []

def mirror : State := joined session (peer 0) 0 none

def run (ops : List Op) : State := ops.foldl (step .checksum session) mirror

/-- A restart between, and frames out of order only after it. -/
theorem log_ascending_one_restart :
    ∃ session, (run [.arrive (chat 1), .restart, .arrive (chat 3), .arrive (chat 2)]).mirror =
        some session ∧
      Ascending SessionMessage.seq session.log ∧
      ∀ n ∈ (run [.arrive (chat 1), .restart, .arrive (chat 3), .arrive (chat 2)]).applied,
        (session.log.map SessionMessage.seq).count n = 1 := by
  refine log_ascending .checksum session (peer 0) 0 none
    [.arrive (chat 1), .restart, .arrive (chat 3), .arrive (chat 2)] [] ⟨?_, ?_, ?_, trivial⟩
  · intro _ session hs
    obtain rfl := Option.some.inj hs
    exact .inr (by simp [Session.new])
  · intro hr
    simp at hr
  · intro hr
    simp at hr

def reordered : SessionDir where
  log := some (encodeLog [chat 2, chat 1])
  metaJson := some ⟨META_VERSION, peer 0, {peer 0}, ⟨2⟩, .Remote, 0⟩
  ticketsJson := none
  workspaceTicket := none

/-- Two frames in the wrong order, then a restart. -/
theorem reload_keeps_arrival_order :
    verifyFrame .checksum (peer 0) session (chat 1) = .ok () ∧
      verifyFrame .checksum (peer 0) session (chat 2) = .ok () ∧
      ∃ session, (run [.arrive (chat 2), .arrive (chat 1), .restart]).mirror = some session ∧
        session.log = [chat 2, chat 1] ∧ ¬ Ascending SessionMessage.seq session.log := by
  have hdir : (run [.arrive (chat 2), .arrive (chat 1)]).disk.dir = some reordered := by
    decide +kernel
  have hsigned : ∀ m ∈ [chat 2, chat 1],
      Signing.verifyMessage .checksum session m m.signature = .ok () := by
    intro m hm
    simp only [mem_cons, not_mem_nil, or_false] at hm
    obtain rfl | rfl := hm <;> exact verify_message _ _ _ _ _
  have hload := loadOne_ok .checksum session true reordered rfl rfl rfl
    (fun _ h => by cases h) (by decide +kernel) fun _ => hsigned
  have hrun : run [.arrive (chat 2), .arrive (chat 1), .restart] =
      step .checksum session (run [.arrive (chat 2), .arrive (chat 1)]) .restart := by
    simp only [run, foldl_cons, foldl_nil]
  refine ⟨by decide +kernel, by decide +kernel, ?_⟩
  rw [hrun]
  simp only [step, load, hdir, hload]
  refine ⟨_, rfl, rfl, ?_⟩
  simp only [Session.fromRecord, Ascending]
  decide +kernel

end Artel.Reload
