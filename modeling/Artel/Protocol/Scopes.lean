import Artel.Protocol.Signing

namespace Artel.Signing

open List

def anonymous (m : SessionMessage) : SessionMessage :=
  { m with peer := ⟨m.peer.id, ""⟩ }

theorem utf8_injective : Function.Injective utf8 := by
  intro s t h
  have hs : String.fromUTF8? ⟨(utf8 s).toArray⟩ = some s := dif_pos s.isValidUTF8
  have ht : String.fromUTF8? ⟨(utf8 t).toArray⟩ = some t := dif_pos t.isValidUTF8
  rw [h, ht] at hs
  exact (Option.some.inj hs).symm

theorem kindTag_injective : Function.Injective kindTag := by
  intro a b h
  cases a <;> cases b <;> first | rfl | cases h

theorem toBeBytes_uint64_injective {a b : UInt64} (h : toBeBytes 8 a.toNat = toBeBytes 8 b.toNat) :
    a = b := by
  apply UInt64.toNat_inj.mp
  have ha := a.toNat_lt
  have hb := b.toNat_lt
  exact toBeBytes_injective 8 _ _ (by omega) (by omega) h

theorem prefixed_injective {a b s t : Bytes} (ha : a.length < 2 ^ 32) (hb : b.length < 2 ^ 32)
    (h : toBeBytes 4 a.length ++ (a ++ s) = toBeBytes 4 b.length ++ (b ++ t)) : a = b ∧ s = t := by
  obtain ⟨hlen, hrest⟩ := append_inj h (by simp)
  have hl := toBeBytes_injective 4 _ _ (by omega) (by omega) hlen
  exact append_inj hrest hl

/-- The author's scope fixes the session and every field of the body but the display name. -/
theorem canonicalBytes_injective {s s' : SessionId} {version version' : UInt8} {stamp stamp' : UInt64}
    {peer peer' : PeerInfo} {kind kind' : MessageKind} {action action' : String}
    {payload payload' : Bytes} (ha : (utf8 action).length < 2 ^ 32 ∧ payload.length < 2 ^ 32)
    (hb : (utf8 action').length < 2 ^ 32 ∧ payload'.length < 2 ^ 32)
    (h : canonicalBytes s version stamp peer kind action payload =
      canonicalBytes s' version' stamp' peer' kind' action' payload') :
    s = s' ∧ version = version' ∧ stamp = stamp' ∧ peer.id = peer'.id ∧ kind = kind' ∧
      action = action' ∧ payload = payload' := by
  simp only [canonicalBytes, append_assoc] at h
  obtain ⟨-, h⟩ := append_inj h rfl
  -- up to the action every field has a fixed width
  obtain ⟨hsession, h⟩ := FixedBytes.append_inj h
  obtain ⟨hversion, h⟩ := append_inj h rfl
  obtain ⟨hstamp, h⟩ := append_inj h (by simp)
  obtain ⟨hid, h⟩ := FixedBytes.append_inj h
  obtain ⟨hkind, h⟩ := append_inj h rfl
  obtain ⟨haction, h⟩ := prefixed_injective ha.1 hb.1 h
  have hpayload : payload = payload' ∧ ([] : Bytes) = [] := by
    apply prefixed_injective ha.2 hb.2
    simpa using h
  exact ⟨congrArg SessionId.mk hsession, by simpa using hversion, toBeBytes_uint64_injective hstamp,
    congrArg PeerId.mk hid, kindTag_injective (by simpa using hkind), utf8_injective haction,
    hpayload.1⟩

theorem seqCanonicalBytes_injective {session session' : SessionId} {n k : Seq} {s t : SigBytes}
    (h : seqCanonicalBytes session n s = seqCanonicalBytes session' k t) :
    session = session' ∧ n = k ∧ s = t := by
  simp only [seqCanonicalBytes, append_assoc] at h
  obtain ⟨-, h⟩ := append_inj h rfl
  obtain ⟨hsession, h⟩ := FixedBytes.append_inj h
  obtain ⟨hseq, hsig⟩ := append_inj h (by simp)
  exact ⟨congrArg SessionId.mk hsession, congrArg Seq.mk (toBeBytes_uint64_injective hseq),
    Subtype.ext hsig⟩

theorem anonymous_eq (session : SessionId) {a b : SessionMessage}
    (ha : (utf8 a.action).length < 2 ^ 32 ∧ a.payload.length < 2 ^ 32)
    (hb : (utf8 b.action).length < 2 ^ 32 ∧ b.payload.length < 2 ^ 32)
    (h : messageScope session a = messageScope session b) (hseq : a.seq = b.seq)
    (hsig : a.signature = b.signature) (hhost : a.hostSig = b.hostSig) :
    anonymous a = anonymous b := by
  obtain ⟨-, hversion, hstamp, hid, hkind, haction, hpayload⟩ := canonicalBytes_injective ha hb h
  unfold anonymous
  rw [hversion, hseq, hstamp, hid, hkind, haction, hpayload, hsig, hhost]

end Artel.Signing
