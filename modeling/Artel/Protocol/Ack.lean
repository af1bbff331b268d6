import Artel.Protocol.Scopes

namespace Artel

abbrev Uuid := FixedBytes 16

/-- The errors a daemon answers with over the wire, in the order of their variant index. -/
inductive ProtocolError
  | versionMismatch (client daemon : UInt32)
  | unknownSession (session : SessionId)
  | notSubscribed (session : SessionId)
  | invalidTicket
  | notReady
  | notHost
  | sessionConflict (session : SessionId)
  | signature (reason : String)
  | capability (reason : String)
  | internal (reason : String)
  | unknownTicket (ticket : TicketId)
  | payloadTooLarge (size max : UInt64)
  deriving DecidableEq

abbrev Verdict := Except ProtocolError SessionMessage

namespace Wire

def sessionId : Wire SessionId := uuid.map SessionId.bytes (fun b => some ⟨b⟩) (fun _ => rfl)

def ticketId : Wire TicketId := uuid.map TicketId.bytes (fun b => some ⟨b⟩) (fun _ => rfl)

end Wire

namespace ProtocolError

open Wire

def index : ProtocolError → ℕ
  | versionMismatch _ _ => 0
  | unknownSession _ => 1
  | notSubscribed _ => 2
  | invalidTicket => 3
  | notReady => 4
  | notHost => 5
  | sessionConflict _ => 6
  | signature _ => 7
  | capability _ => 8
  | internal _ => 9
  | unknownTicket _ => 10
  | payloadTooLarge _ _ => 11

def putBody : ProtocolError → Bytes
  | versionMismatch client daemon => (varint32.pair varint32).put (client, daemon)
  | unknownSession session | notSubscribed session | sessionConflict session =>
    sessionId.put session
  | invalidTicket | notReady | notHost => []
  | signature reason | capability reason | internal reason => text.put reason
  | unknownTicket ticket => ticketId.put ticket
  | payloadTooLarge size max => (varint64.pair varint64).put (size, max)

def getBody (b : Bytes) : ℕ → Option (ProtocolError × Bytes)
  | 0 => (varint32.pair varint32).getAs (fun x => versionMismatch x.1 x.2) b
  | 1 => sessionId.getAs unknownSession b
  | 2 => sessionId.getAs notSubscribed b
  | 3 => some (invalidTicket, b)
  | 4 => some (notReady, b)
  | 5 => some (notHost, b)
  | 6 => sessionId.getAs sessionConflict b
  | 7 => text.getAs signature b
  | 8 => text.getAs capability b
  | 9 => text.getAs internal b
  | 10 => ticketId.getAs unknownTicket b
  | 11 => (varint64.pair varint64).getAs (fun x => payloadTooLarge x.1 x.2) b
  | _ => none

def fits : ProtocolError → Prop
  | signature reason | capability reason | internal reason => text.fits reason
  | _ => True

theorem uuid_fits (b : FixedBytes 16) : uuid.fits b := by
  change b.val.length < 2 ^ 64
  rw [b.property]
  omega

theorem getBody_putBody (err : ProtocolError) (rest : Bytes) (h : err.fits) :
    getBody (err.putBody ++ rest) err.index = some (err, rest) := by
  cases err with
  | versionMismatch client daemon =>
    exact getAs_put (varint32.pair varint32) (fun x => versionMismatch x.1 x.2) (client, daemon) _
      ⟨client.toNat_lt, daemon.toNat_lt⟩
  | unknownSession session | notSubscribed session
  | sessionConflict session => exact getAs_put _ _ session _ (uuid_fits _)
  | invalidTicket => rfl
  | notReady => rfl
  | notHost => rfl
  | signature reason | capability reason | internal reason => exact getAs_put _ _ reason _ h
  | unknownTicket ticket => exact getAs_put _ _ ticket _ (uuid_fits _)
  | payloadTooLarge size max =>
    exact getAs_put (varint64.pair varint64) (fun x => payloadTooLarge x.1 x.2) (size, max) _
      ⟨trivial, trivial⟩

theorem index_lt (err : ProtocolError) : err.index < 2 ^ 32 := by
  cases err <;> simp only [index] <;> omega

def wire : Wire ProtocolError where
  put err := variant.put err.index ++ err.putBody
  get b := (variant.get b).bind fun x => getBody x.2 x.1
  fits := fits
  get_put err rest h := by
    rw [List.append_assoc, variant.get_put _ _ err.index_lt, Option.bind_some]
    exact getBody_putBody err rest h

end ProtocolError

namespace Signing

/-- The byte that tells an acceptance from a rejection, and the verdict's own encoding. -/
def verdictBytes : Verdict → Bytes
  | .ok m => 0 :: Wire.sessionMessage.put m
  | .error err => 1 :: ProtocolError.wire.put err

def ackCanonicalBytes (session : SessionId) (reqId : Uuid) (result : Verdict) : Bytes :=
  ACK_DOMAIN_TAG ++ session.bytes.val ++ reqId.val ++ verdictBytes result

variable (ed : Ed25519)

def signAck (key : ed.SigningKey) (session : SessionId) (reqId : Uuid) (result : Verdict) :
    SigBytes :=
  ed.sign key (ackCanonicalBytes session reqId result)

def verifyAck (host : PeerId) (session : SessionId) (reqId : Uuid) (result : Verdict)
    (hostSig : SigBytes) : Except VerifyError Unit :=
  verifyScope ed host (ackCanonicalBytes session reqId result) hostSig

def verdictFits : Verdict → Prop
  | .ok m => Wire.sessionMessage.fits m
  | .error err => ProtocolError.wire.fits err

theorem verdictBytes_injective {a b : Verdict} (ha : verdictFits a) (hb : verdictFits b)
    (h : verdictBytes a = verdictBytes b) : a = b := by
  cases a with
  | ok m =>
    cases b with
    | ok m' => rw [Wire.put_injective _ ha hb (List.cons.inj h).2]
    | error err => cases (List.cons.inj h).1
  | error err =>
    cases b with
    | ok m => cases (List.cons.inj h).1
    | error err' => rw [Wire.put_injective _ ha hb (List.cons.inj h).2]

theorem ackCanonicalBytes_injective {s t : SessionId} {q r : Uuid} {a b : Verdict}
    (ha : verdictFits a) (hb : verdictFits b)
    (h : ackCanonicalBytes s q a = ackCanonicalBytes t r b) : s = t ∧ q = r ∧ a = b := by
  simp only [ackCanonicalBytes, List.append_assoc] at h
  obtain ⟨-, h⟩ := List.append_inj h rfl
  obtain ⟨hsession, h⟩ := FixedBytes.append_inj h
  obtain ⟨hreq, h⟩ := FixedBytes.append_inj h
  exact ⟨congrArg SessionId.mk hsession, hreq, verdictBytes_injective ha hb h⟩

end Signing

end Artel
