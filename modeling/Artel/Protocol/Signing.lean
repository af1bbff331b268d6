import Artel.Protocol.Message

namespace Artel

/-- ed25519 as the daemon calls it; the all-zero signature's point has small order. -/
structure Ed25519 where
  SigningKey : Type
  verifyingKey : SigningKey → PeerId
  sign : SigningKey → Bytes → SigBytes
  /-- `VerifyingKey::from_bytes` decodes a curve point. -/
  validKey : PeerId → Bool
  verifyStrict : PeerId → Bytes → SigBytes → Bool
  validKey_verifyingKey : ∀ k, validKey (verifyingKey k) = true
  verifyStrict_sign : ∀ k b, verifyStrict (verifyingKey k) b (sign k b) = true
  verifyStrict_unsigned : ∀ p b, verifyStrict p b SIGNATURE_UNSIGNED = false

/-- A keyed checksum with the laws of a signature scheme, to run fixed inputs with. -/
def Ed25519.checksum : Ed25519 where
  SigningKey := PeerId
  verifyingKey k := k
  sign k b := ⟨toBeBytes 64 (fromBeBytes (k.bytes.val ++ b) % (2 ^ 255 - 19) + 1), by simp⟩
  validKey _ := true
  verifyStrict p b s :=
    decide (s.val = toBeBytes 64 (fromBeBytes (p.bytes.val ++ b) % (2 ^ 255 - 19) + 1))
  validKey_verifyingKey _ := rfl
  verifyStrict_sign _ _ := decide_eq_true rfl
  verifyStrict_unsigned p b := by
    rw [decide_eq_false_iff_not]
    intro h
    -- a checksum is at least one, and the sentinel reads as zero
    have hz : SIGNATURE_UNSIGNED.val = toBeBytes 64 0 := by decide
    have hlt := Nat.mod_lt (fromBeBytes (p.bytes.val ++ b)) (y := 2 ^ 255 - 19) (by norm_num)
    have hbig : 2 ^ 255 - 19 + 1 < 256 ^ 64 := by decide
    have h0 := toBeBytes_injective 64 0 _ (by norm_num) (by omega) (hz.symm.trans h)
    omega

inductive VerifyError
  | sentinelUnsigned
  | versionTooOld (version floor : UInt8)
  | badKey
  | badSig
  deriving DecidableEq

def verifyReason : VerifyError → String
  | .sentinelUnsigned => "unsigned sentinel"
  | .versionTooOld _ _ => "message version below signed floor"
  | .badKey => "peer.id is not a valid ed25519 key"
  | .badSig => "signature does not verify"

inductive Capability
  | read
  | readWrite
  deriving DecidableEq

namespace Capability

def permitsWrite : Capability → Bool
  | read => false
  | readWrite => true

end Capability

namespace Signing

def ascii (cs : List Char) : Bytes := cs.map Char.toUInt8

theorem digit_of_mem {n : ℕ} {c : UInt8} (h : c ∈ ascii (Nat.toDigits 10 n)) :
    48 ≤ c ∧ c ≤ 57 := by
  obtain ⟨d, hd, rfl⟩ := List.mem_map.mp h
  have hdigit := Nat.isDigit_of_mem_toDigits (by decide) (by decide) hd
  simp only [Char.isDigit, Bool.and_eq_true, decide_eq_true_eq] at hdigit
  have hlow : 48 ≤ d.val.toNat := hdigit.1
  have hhigh : d.val.toNat ≤ 57 := hdigit.2
  have hval : d.toUInt8.toNat = d.val.toNat % 256 := rfl
  simp only [UInt8.le_iff_toNat_le, UInt8.reduceToNat]
  omega

def DOMAIN_TAG : Bytes := ascii ['a', 'r', 't', 'e', 'l', '/', 's', 'i', 'g', '-', 'v', '1']

def SEQ_DOMAIN_TAG : Bytes := ascii ['a', 'r', 't', 'e', 'l', '/', 's', 'e', 'q', '-', 'v', '1']

def ACK_DOMAIN_TAG : Bytes := ascii ['a', 'r', 't', 'e', 'l', '/', 'a', 'c', 'k', '-', 'v', '1']

def TICKET_CAP_DOMAIN_TAG : Bytes :=
  ascii ['a', 'r', 't', 'e', 'l', '/', 't', 'i', 'c', 'k', 'e', 't', '-', 'c', 'a', 'p', '-', 'v',
    '2']

def kindTag : MessageKind → UInt8
  | .chat => 0
  | .tool => 1
  | .system => 2
  | .capability => 3

def capByte : Capability → UInt8
  | .read => 0
  | .readWrite => 1

def utf8 (s : String) : Bytes := s.toByteArray.data.toList

/-- The author's scope: every field of the body but `seq` and the display name. -/
def canonicalBytes (session : SessionId) (version : UInt8) (timestampMs : UInt64) (peer : PeerInfo)
    (kind : MessageKind) (action : String) (payload : Bytes) : Bytes :=
  DOMAIN_TAG ++ session.bytes.val ++ [version] ++ toBeBytes 8 timestampMs.toNat ++
    peer.id.bytes.val ++ [kindTag kind] ++ toBeBytes 4 (utf8 action).length ++ utf8 action ++
    toBeBytes 4 payload.length ++ payload

def seqCanonicalBytes (session : SessionId) (seq : Seq) (authorSig : SigBytes) : Bytes :=
  SEQ_DOMAIN_TAG ++ session.bytes.val ++ toBeBytes 8 seq.toNat ++ authorSig.val

def ticketCapCanonicalBytes (ticket : TicketId) (session : SessionId) (grantedCap : Capability)
    (expiryMs hostEpoch : UInt64) : Bytes :=
  TICKET_CAP_DOMAIN_TAG ++ ticket.bytes.val ++ session.bytes.val ++ [capByte grantedCap] ++
    toBeBytes 8 expiryMs.toNat ++ toBeBytes 8 hostEpoch.toNat

variable (ed : Ed25519)

/-- What every verifier ends with: the sentinel, then the key, then the signature. -/
def verifyScope (key : PeerId) (scope : Bytes) (sig : SigBytes) : Except VerifyError Unit :=
  if sig = SIGNATURE_UNSIGNED then .error .sentinelUnsigned
  else if ed.validKey key = false then .error .badKey
  else if ed.verifyStrict key scope sig = false then .error .badSig
  else .ok ()

def messageScope (session : SessionId) (m : SessionMessage) : Bytes :=
  canonicalBytes session m.version m.timestampMs m.peer m.kind m.action m.payload

/-- The version floor is checked after the sentinel and before the key. -/
def verifyMessage (session : SessionId) (m : SessionMessage) (signature : SigBytes) :
    Except VerifyError Unit :=
  if signature = SIGNATURE_UNSIGNED then .error .sentinelUnsigned
  else if m.version < MESSAGE_FORMAT then .error (.versionTooOld m.version MESSAGE_FORMAT)
  else verifyScope ed m.peer.id (messageScope session m) signature

def verifySeq (host : PeerId) (session : SessionId) (seq : Seq) (authorSig hostSig : SigBytes) :
    Except VerifyError Unit :=
  verifyScope ed host (seqCanonicalBytes session seq authorSig) hostSig

def verifyTicketCap (host : PeerId) (ticket : TicketId) (session : SessionId)
    (grantedCap : Capability) (expiryMs hostEpoch : UInt64) (capSig : SigBytes) :
    Except VerifyError Unit :=
  verifyScope ed host (ticketCapCanonicalBytes ticket session grantedCap expiryMs hostEpoch) capSig

def signBody (key : ed.SigningKey) (session : SessionId) (version : UInt8) (timestampMs : UInt64)
    (peer : PeerInfo) (kind : MessageKind) (action : String) (payload : Bytes) : SigBytes :=
  ed.sign key (canonicalBytes session version timestampMs peer kind action payload)

def signSeq (key : ed.SigningKey) (session : SessionId) (seq : Seq) (authorSig : SigBytes) :
    SigBytes :=
  ed.sign key (seqCanonicalBytes session seq authorSig)

theorem verifyScope_ok_iff (key : PeerId) (scope : Bytes) (sig : SigBytes) :
    verifyScope ed key scope sig = .ok () ↔
      ed.validKey key = true ∧ ed.verifyStrict key scope sig = true := by
  unfold verifyScope
  split
  · rename_i h
    -- the branch of the sentinel agrees: `verifyStrict` refuses it too
    simp [h, ed.verifyStrict_unsigned]
  · split
    · simp_all
    · split <;> simp_all

theorem verifyScope_sign (key : ed.SigningKey) (scope : Bytes) :
    verifyScope ed (ed.verifyingKey key) scope (ed.sign key scope) = .ok () :=
  (verifyScope_ok_iff ed _ _ _).2 ⟨ed.validKey_verifyingKey key, ed.verifyStrict_sign key scope⟩

theorem verifyMessage_ok_iff (session : SessionId) (m : SessionMessage) (sig : SigBytes) :
    verifyMessage ed session m sig = .ok () ↔
      MESSAGE_FORMAT ≤ m.version ∧
        verifyScope ed m.peer.id (messageScope session m) sig = .ok () := by
  unfold verifyMessage
  by_cases hs : sig = SIGNATURE_UNSIGNED
  · simp [hs, verifyScope]
  · by_cases hv : m.version < MESSAGE_FORMAT
    · simp [hs, hv, UInt8.not_le.mpr hv]
    · simp [hs, hv, UInt8.not_lt.mp hv]

theorem verifyMessage_signBody (key : ed.SigningKey) (session : SessionId) (m : SessionMessage)
    (hversion : m.version = MESSAGE_FORMAT) (hpeer : m.peer.id = ed.verifyingKey key)
    (hsig : m.signature = ed.sign key (messageScope session m)) :
    verifyMessage ed session m m.signature = .ok () := by
  rw [verifyMessage_ok_iff, hversion, hpeer, hsig]
  exact ⟨UInt8.le_refl _, verifyScope_sign ed key _⟩

end Signing

namespace Sample

def session : SessionId := ⟨⟨List.replicate 16 1, by simp⟩⟩

def peer (b : UInt8) : PeerId := ⟨⟨List.replicate 32 b, by simp⟩⟩

def info (b : UInt8) : PeerInfo := ⟨peer b, ""⟩

/-- A message by peer `author`, sequenced by peer `0`. -/
def message (author : UInt8) (seq : UInt64) (kind : MessageKind) (action : String)
    (payload : Bytes) : SessionMessage :=
  let signature := Signing.signBody .checksum (peer author) session MESSAGE_FORMAT 0 (info author)
    kind action payload
  { version := MESSAGE_FORMAT, seq := ⟨seq⟩, timestampMs := 0, peer := info author, kind := kind,
    action := action, payload := payload, signature := signature,
    hostSig := Signing.signSeq .checksum (peer 0) session ⟨seq⟩ signature }

theorem verify_message (author : UInt8) (seq : UInt64) (kind : MessageKind) (action : String)
    (payload : Bytes) :
    Signing.verifyMessage .checksum session (message author seq kind action payload)
      (message author seq kind action payload).signature = .ok () :=
  Signing.verifyMessage_signBody .checksum (peer author) session _ rfl rfl rfl

end Sample

end Artel
