import Artel.Session.Host
import Artel.Session.Mirror

namespace Artel

open Store

variable {ed : Ed25519} (d : Daemon ed)

/-- The server stamps the daemon's identity on every draft that it authors. -/
def Draft.Stamped (draft : Draft) : Prop := draft.authoring = .Local → draft.peer.id = d.peerId

instance (draft : Draft) : Decidable (draft.Stamped d) := inferInstanceAs (Decidable (_ → _))

/-- The daemon's identity is the public key of the key it signs with. -/
def Daemon.Identified : Prop := ∀ key ∈ d.signingKey, ed.verifyingKey key = d.peerId

variable {d} {s : Session} {nowMs : UInt64} {draft : Draft} {m : SessionMessage}

theorem resolveAuthoring_verified {key : ed.SigningKey} (hkey : d.signingKey = some key)
    (hid : d.Identified) (hstamp : draft.Stamped d) {session : SessionId} {timestampMs : UInt64}
    {signature hostSig : SigBytes} {seq : Seq}
    (h : resolveAuthoring d session nowMs draft = .ok (timestampMs, signature)) :
    Signing.verifyMessage ed session (draft.message seq timestampMs signature hostSig) signature =
      .ok () := by
  unfold resolveAuthoring at h
  split at h
  · rename_i hlocal
    simp only [authorLocal, hkey, Except.ok.injEq, Prod.mk.injEq] at h
    obtain ⟨rfl, rfl⟩ := h
    apply Signing.verifyMessage_signBody ed key session _ rfl
    · rw [hid key hkey]
      exact hstamp hlocal
    · rfl
  · unfold authorRemote at h
    dsimp only at h
    split at h
    · cases h
    · rename_i hv
      cases h
      exact hv

/-- What a daemon with a key sequences verifies. -/
theorem prepareSend_verified {key : ed.SigningKey} (hkey : d.signingKey = some key)
    (hid : d.Identified) (hstamp : draft.Stamped d) (h : prepareSend d s nowMs draft = .ok m) :
    verifyFrame ed d.peerId s.id m = .ok () := by
  unfold prepareSend at h
  split at h
  · cases h
  split at h
  · cases h
  split at h
  · cases h
  rename_i ts sig hauth
  split at h
  · cases h
  rename_i prospective hnext
  dsimp only at h
  split at h
  · cases h
  cases h
  have hauthor : Signing.verifyMessage ed s.id
      (draft.message prospective ts sig (signSeqFor d s.id prospective sig)) sig = .ok () :=
    resolveAuthoring_verified hkey hid hstamp hauth
  have hseq : Signing.verifySeq ed d.peerId s.id prospective sig
      (signSeqFor d s.id prospective sig) = .ok () := by
    rw [signSeqFor, hkey, ← hid key hkey]
    exact Signing.verifyScope_sign ed key _
  unfold verifyFrame
  rw [show (draft.message prospective ts sig (signSeqFor d s.id prospective sig)).signature =
    sig from rfl, hauthor]
  exact hseq

theorem Sample.identified : Sample.daemon.Identified := by
  intro key hkey
  obtain rfl := Option.some.inj hkey
  rfl

end Artel
