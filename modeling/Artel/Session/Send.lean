import Artel.Session.Session

namespace Artel

open Store

def MAX_GOSSIP_MESSAGE_SIZE : ℕ := 1024 * 1024

def GOSSIP_ENVELOPE_OVERHEAD : ℕ := 512

def MAX_GOSSIP_FRAME : ℕ := MAX_GOSSIP_MESSAGE_SIZE - GOSSIP_ENVELOPE_OVERHEAD

def SESSION_MESSAGE_CARRIER_OVERHEAD : ℕ := 128

def MAX_SESSION_MESSAGE_FRAME : ℕ := MAX_GOSSIP_FRAME - SESSION_MESSAGE_CARRIER_OVERHEAD

/-- The version byte, the variant byte and the message. -/
def messageFrameLen (m : SessionMessage) : ℕ := 2 + (encodeMessage m).length

/-- Who signs the body: this daemon now, or the joiner who already has. -/
inductive Authoring
  | Local
  | Remote (timestampMs : UInt64) (signature : SigBytes)
  deriving DecidableEq

structure Draft where
  peer : PeerInfo
  kind : MessageKind
  action : String
  payload : Bytes
  authoring : Authoring
  deriving DecidableEq

structure Daemon (ed : Ed25519) where
  peerId : PeerId
  signingKey : Option ed.SigningKey

variable {ed : Ed25519} (d : Daemon ed)

/-- The body a draft has at a given time, with the signature left out. -/
def Draft.scope (draft : Draft) (session : SessionId) (timestampMs : UInt64) : Bytes :=
  Signing.canonicalBytes session MESSAGE_FORMAT timestampMs draft.peer draft.kind draft.action
    draft.payload

/-- Without a key the sentinel goes out, which every verifier refuses. -/
def authorLocal (session : SessionId) (nowMs : UInt64) (draft : Draft) : UInt64 × SigBytes :=
  (nowMs, match d.signingKey with
    | none => SIGNATURE_UNSIGNED
    | some key => ed.sign key (draft.scope session nowMs))

def Draft.message (draft : Draft) (seq : Seq) (timestampMs : UInt64) (signature hostSig : SigBytes) :
    SessionMessage where
  version := MESSAGE_FORMAT
  seq := seq
  timestampMs := timestampMs
  peer := draft.peer
  kind := draft.kind
  action := draft.action
  payload := draft.payload
  signature := signature
  hostSig := hostSig

/-- The joiner's stamp and signature are kept, and verified before anything is sequenced. -/
def authorRemote (ed : Ed25519) (session : SessionId) (timestampMs : UInt64) (signature : SigBytes)
    (draft : Draft) : Except SessionError (UInt64 × SigBytes) :=
  let candidate := draft.message Seq.ZERO timestampMs signature SIGNATURE_UNSIGNED
  match Signing.verifyMessage ed session candidate signature with
  | .error e => .error (.signatureRejected draft.peer.id (verifyReason e))
  | .ok _ => .ok (timestampMs, signature)

def resolveAuthoring (session : SessionId) (nowMs : UInt64) (draft : Draft) :
    Except SessionError (UInt64 × SigBytes) :=
  match draft.authoring with
  | .Local => .ok (authorLocal d session nowMs draft)
  | .Remote timestampMs signature => authorRemote ed session timestampMs signature draft

def signSeqFor (session : SessionId) (seq : Seq) (authorSig : SigBytes) : SigBytes :=
  match d.signingKey with
  | none => SIGNATURE_UNSIGNED
  | some key => Signing.signSeq ed key session seq authorSig

/-- What a send checks and makes under the lock before the store. -/
def prepareSend (s : Session) (nowMs : UInt64) (draft : Draft) :
    Except SessionError SessionMessage :=
  if draft.peer.id ∉ s.members then .error (.notMember s.id)
  else if s.canWrite draft.peer.id = false then
    .error (.capabilityDenied draft.peer.id (s.caps draft.peer.id) .readWrite)
  else
    match resolveAuthoring d s.id nowMs draft with
    | .error e => .error e
    | .ok (timestampMs, signature) =>
      -- the head moves only after the append, so a send that fails there leaves its seq free
      match s.head.next with
      | none => .error .seqOverflow
      | some prospective =>
        let m := draft.message prospective timestampMs signature
          (signSeqFor d s.id prospective signature)
        if MAX_SESSION_MESSAGE_FRAME < messageFrameLen m then
          .error (.payloadTooLarge (messageFrameLen m) MAX_SESSION_MESSAGE_FRAME)
        else .ok m

def commitSend (s : Session) (m : SessionMessage) : Session :=
  { s with
    head := m.seq
    log := s.log ++ [m]
    caps := if m.kind = .capability then applyCapabilityTo s.caps s.host m else s.caps }

theorem max_session_frame_le : MAX_SESSION_MESSAGE_FRAME ≤ MAX_FRAME_SIZE := by decide

structure Prepared (ed : Ed25519) (s : Session) (draft : Draft) (m : SessionMessage) : Prop where
  member : draft.peer.id ∈ s.members
  canWrite : s.canWrite draft.peer.id = true
  seq : s.head.next = some m.seq
  peer : m.peer = draft.peer
  kind : m.kind = draft.kind
  action : m.action = draft.action
  size : (encodeMessage m).length ≤ MAX_FRAME_SIZE
  signed : m.signature = SIGNATURE_UNSIGNED ∨
    ∃ p, ed.verifyStrict p (Signing.messageScope s.id m) m.signature = true

theorem resolveAuthoring_signed {session : SessionId} {nowMs : UInt64} {draft : Draft}
    {timestampMs : UInt64} {signature : SigBytes}
    (h : resolveAuthoring d session nowMs draft = .ok (timestampMs, signature)) :
    signature = SIGNATURE_UNSIGNED ∨
      ∃ p, ed.verifyStrict p (draft.scope session timestampMs) signature = true := by
  unfold resolveAuthoring at h
  split at h
  · unfold authorLocal at h
    cases hkey : d.signingKey with
    | none =>
      rw [hkey] at h
      cases h
      exact .inl rfl
    | some key =>
      rw [hkey] at h
      cases h
      exact .inr ⟨_, ed.verifyStrict_sign key _⟩
  · unfold authorRemote at h
    dsimp only at h
    split at h
    · cases h
    · rename_i hv
      cases h
      have hscope := ((Signing.verifyMessage_ok_iff ed _ _ _).mp hv).2
      exact .inr ⟨_, ((Signing.verifyScope_ok_iff ed _ _ _).mp hscope).2⟩

theorem prepareSend_ok {s : Session} {nowMs : UInt64} {draft : Draft} {m : SessionMessage}
    (h : prepareSend d s nowMs draft = .ok m) : Prepared ed s draft m := by
  unfold prepareSend at h
  split at h
  · cases h
  rename_i hmember
  split at h
  · cases h
  rename_i hwrite
  split at h
  · cases h
  rename_i ts sig hauth
  split at h
  · cases h
  rename_i prospective hnext
  dsimp only at h
  split at h
  · cases h
  rename_i hsize
  cases h
  refine ⟨not_not.mp hmember, by simpa using hwrite, hnext, rfl, rfl, rfl, ?_,
    resolveAuthoring_signed d hauth⟩
  have hmax := max_session_frame_le
  unfold messageFrameLen at hsize
  omega

end Artel
