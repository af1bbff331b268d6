import Artel.Protocol.Ack
import Artel.Protocol.Ctrl

namespace Artel.Signing

inductive Scope
  | body
  | seq
  | ack
  | ctrl
  | ticketCap
  deriving DecidableEq

def Scope.tag : Scope → Bytes
  | body => DOMAIN_TAG
  | seq => SEQ_DOMAIN_TAG
  | ack => ACK_DOMAIN_TAG
  | ctrl => CTRL_DOMAIN_TAG
  | ticketCap => TICKET_CAP_DOMAIN_TAG

inductive Meaning
  | body (session : SessionId) (version : UInt8) (timestampMs : UInt64) (peer : PeerInfo)
    (kind : MessageKind) (action : String) (payload : Bytes)
  | seq (session : SessionId) (n : Seq) (authorSig : SigBytes)
  | ack (session : SessionId) (reqId : Uuid) (result : Verdict)
  | ctrl (session : SessionId) (frame : CtrlFrame) (hostEpoch : UInt64)
  | ticketCap (ticket : TicketId) (session : SessionId) (grantedCap : Capability)
    (expiryMs hostEpoch : UInt64)

namespace Meaning

def scope : Meaning → Scope
  | body .. => .body
  | seq .. => .seq
  | ack .. => .ack
  | ctrl .. => .ctrl
  | ticketCap .. => .ticketCap

def bytes : Meaning → Bytes
  | body session version timestampMs peer kind action payload =>
    canonicalBytes session version timestampMs peer kind action payload
  | seq session n authorSig => seqCanonicalBytes session n authorSig
  | ack session reqId result => ackCanonicalBytes session reqId result
  | ctrl session frame hostEpoch => ctrlCanonicalBytes session frame hostEpoch
  | ticketCap ticket session grantedCap expiryMs hostEpoch =>
    ticketCapCanonicalBytes ticket session grantedCap expiryMs hostEpoch

def said : Meaning → Meaning
  | body session version timestampMs peer kind action payload =>
    body session version timestampMs ⟨peer.id, ""⟩ kind action payload
  | m => m

/-- The lengths that a body has prefixes for, and a verdict that postcard can carry. -/
def fits : Meaning → Prop
  | body _ _ _ _ _ action payload => (utf8 action).length < 2 ^ 32 ∧ payload.length < 2 ^ 32
  | ack _ _ result => verdictFits result
  | _ => True

theorem bytes_take (m : Meaning) : m.bytes.take 8 = m.scope.tag.take 8 := by
  cases m <;> rfl

theorem tag_injective {s t : Scope} (h : s.tag.take 8 = t.tag.take 8) : s = t := by
  cases s <;> cases t <;> first | rfl | exact absurd h (by decide)

theorem scope_eq_of_bytes {a b : Meaning} (h : a.bytes = b.bytes) : a.scope = b.scope := by
  apply tag_injective
  rw [← bytes_take, ← bytes_take, h]

theorem bytes_said (m : Meaning) : m.said.bytes = m.bytes := by
  cases m <;> rfl

theorem capByte_injective : Function.Injective capByte := by
  intro a b h
  cases a <;> cases b <;> first | rfl | cases h

theorem ticketCapCanonicalBytes_injective {a b : TicketId} {s t : SessionId} {c c' : Capability}
    {expiry expiry' epoch epoch' : UInt64}
    (h : ticketCapCanonicalBytes a s c expiry epoch = ticketCapCanonicalBytes b t c' expiry' epoch') :
    a = b ∧ s = t ∧ c = c' ∧ expiry = expiry' ∧ epoch = epoch' := by
  simp only [ticketCapCanonicalBytes, List.append_assoc] at h
  obtain ⟨-, h⟩ := List.append_inj h rfl
  obtain ⟨hticket, h⟩ := FixedBytes.append_inj h
  obtain ⟨hsession, h⟩ := FixedBytes.append_inj h
  obtain ⟨hcap, h⟩ := List.append_inj h rfl
  obtain ⟨hexpiry, hepoch⟩ := List.append_inj h (by simp)
  exact ⟨congrArg TicketId.mk hticket, congrArg SessionId.mk hsession,
    capByte_injective (by simpa using hcap), toBeBytes_uint64_injective hexpiry,
    toBeBytes_uint64_injective hepoch⟩

theorem said_eq_of_bytes {a b : Meaning} (ha : a.fits) (hb : b.fits) (h : a.bytes = b.bytes) :
    a.said = b.said := by
  have hscope := scope_eq_of_bytes h
  cases a with
  | body =>
    cases b with
    | body =>
      obtain ⟨rfl, rfl, rfl, hid, rfl, rfl, rfl⟩ := canonicalBytes_injective ha hb h
      simp only [said, hid]
    | _ => cases hscope
  | seq =>
    cases b with
    | seq =>
      obtain ⟨rfl, rfl, rfl⟩ := seqCanonicalBytes_injective h
      rfl
    | _ => cases hscope
  | ack =>
    cases b with
    | ack =>
      obtain ⟨rfl, rfl, rfl⟩ := ackCanonicalBytes_injective ha hb h
      rfl
    | _ => cases hscope
  | ctrl =>
    cases b with
    | ctrl =>
      obtain ⟨rfl, rfl, rfl⟩ := ctrlCanonicalBytes_injective h
      rfl
    | _ => cases hscope
  | ticketCap =>
    cases b with
    | ticketCap =>
      obtain ⟨rfl, rfl, rfl, rfl, rfl⟩ := ticketCapCanonicalBytes_injective h
      rfl
    | _ => cases hscope

/-- Scopes share no bytes, and a scope's bytes tell all but the display name. -/
theorem scopes_separate (a b : Meaning) :
    (a.bytes = b.bytes → a.scope = b.scope) ∧
    (a.fits → b.fits → (a.bytes = b.bytes ↔ a.said = b.said) ∧
      ∀ (ed : Ed25519) (key : ed.SigningKey),
        (∀ scope, ed.verifyStrict (ed.verifyingKey key) scope (ed.sign key a.bytes) = true →
          scope = a.bytes) →
        verifyScope ed (ed.verifyingKey key) b.bytes (ed.sign key a.bytes) = .ok () →
          a.said = b.said) := by
  refine ⟨scope_eq_of_bytes, fun ha hb => ⟨⟨said_eq_of_bytes ha hb, fun hsaid => ?_⟩, ?_⟩⟩
  · rw [← bytes_said a, ← bytes_said b, hsaid]
  · intro ed key hbinds hverify
    have hbytes := hbinds b.bytes ((verifyScope_ok_iff ed _ _ _).mp hverify).2
    exact said_eq_of_bytes ha hb hbytes.symm

end Meaning

end Artel.Signing
