import Artel.Protocol.Scopes

namespace Artel.Signing

inductive CtrlFrame
  | close
  | beacon
  deriving DecidableEq

def CTRL_DOMAIN_TAG : Bytes :=
  ascii ['a', 'r', 't', 'e', 'l', '/', 'c', 't', 'r', 'l', '-', 'v', '2']

def ctrlFrameByte : CtrlFrame → UInt8
  | .close => 0
  | .beacon => 1

/-- The scope of a control frame: its kind and the host's epoch, for one session. -/
def ctrlCanonicalBytes (session : SessionId) (frame : CtrlFrame) (hostEpoch : UInt64) : Bytes :=
  CTRL_DOMAIN_TAG ++ session.bytes.val ++ [ctrlFrameByte frame] ++ toBeBytes 8 hostEpoch.toNat

variable (ed : Ed25519)

def signCtrl (key : ed.SigningKey) (session : SessionId) (frame : CtrlFrame) (hostEpoch : UInt64) :
    SigBytes :=
  ed.sign key (ctrlCanonicalBytes session frame hostEpoch)

def verifyCtrl (host : PeerId) (session : SessionId) (frame : CtrlFrame) (hostEpoch : UInt64)
    (hostSig : SigBytes) : Except VerifyError Unit :=
  verifyScope ed host (ctrlCanonicalBytes session frame hostEpoch) hostSig

theorem ctrlFrameByte_injective : Function.Injective ctrlFrameByte := by
  intro a b h
  cases a <;> cases b <;> first | rfl | cases h

theorem ctrlCanonicalBytes_injective {s t : SessionId} {frame frame' : CtrlFrame}
    {epoch epoch' : UInt64}
    (h : ctrlCanonicalBytes s frame epoch = ctrlCanonicalBytes t frame' epoch') :
    s = t ∧ frame = frame' ∧ epoch = epoch' := by
  simp only [ctrlCanonicalBytes, List.append_assoc] at h
  obtain ⟨-, h⟩ := List.append_inj h rfl
  obtain ⟨hsession, h⟩ := FixedBytes.append_inj h
  obtain ⟨hframe, hepoch⟩ := List.append_inj h rfl
  exact ⟨congrArg SessionId.mk hsession, ctrlFrameByte_injective (by simpa using hframe),
    toBeBytes_uint64_injective hepoch⟩

end Artel.Signing
