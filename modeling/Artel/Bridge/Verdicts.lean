import Artel.Bridge.VerdictInvariant

namespace Artel.Bridge

variable {ed : Ed25519} (b : Config ed) {hostOf : SessionId → PeerId}

/-- What a call of `send_remote` passes on from the host. -/
def verdict : Except BridgeError SessionMessage → Option Verdict
  | .ok m => some (.ok m)
  | .error (.hostRejected err) => some (.error err)
  | .error _ => none

/-- A send that returns a verdict has it in its view, for its own session. -/
def Sent (session : SessionId) (r : Except BridgeError SessionMessage) (v : View) : Prop :=
  ∀ result, verdict r = some result → ∃ reqId, v = .answered session reqId result

def Returned : Call → Reply → View → Prop
  | .sendRemote session _ _, some r, v => Sent session r v
  | _, _, _ => True

section Calls

variable {C : Label → Env → State → Prop} {i : ℕ} {v : View}

theorem quiet_removePending (reqId : Uuid) :
    Quiet (Inv hostOf) C i v (Bridge.removePending reqId) :=
  Quiet.once fun _ _ _ hI _ _ => hI.removePending reqId

theorem quiet_clock : Quiet (Inv hostOf) C i v clock := Quiet.once fun _ _ _ hI _ _ => hI

variable (session : SessionId)

theorem quiet_mapLive : Quiet (Inv hostOf) C i v (mapLive session) :=
  Quiet.once fun _ _ _ hI _ _ => hI

theorem quiet_broadcast (bytes : Bytes) :
    Quiet (Inv hostOf) C i v (broadcast session bytes) := by
  apply Quiet.once
  intro e s V hI _ _
  split
  · exact hI
  · exact hI.frame rfl rfl rfl rfl fun _ hx => hx

theorem quiet_setSlot (live : Bool) :
    Quiet (Inv hostOf) C i v (Bridge.setSlot session live) :=
  Quiet.once fun _ _ _ hI _ _ => hI.frame rfl rfl rfl rfl fun _ hx => hx

theorem quiet_signs (key : PeerId) (scope : Bytes) :
    Quiet (Inv hostOf) C i v (Bridge.signs key scope) :=
  Quiet.once fun _ _ _ hI _ _ =>
    hI.frame rfl rfl rfl rfl fun _ hx => List.mem_append_left _ hx

theorem follows_conclude {session : SessionId} {reqId : Uuid} (woken : Wake × Option Verdict)
    (hv : ∀ result, woken.2 = some result → v = .answered session reqId result) :
    Follows (Inv hostOf) C i (Sent session) (conclude reqId woken) v := by
  unfold conclude
  split
  · exact (quiet_removePending reqId).andThen fun _ result h => by cases h
  · intro result h
    cases h
    exact ⟨reqId, hv _ rfl⟩
  · intro result h
    cases h
    exact ⟨reqId, hv _ rfl⟩
  · intro result h
    cases h

theorem follows_awaitReply {session : SessionId} {reqId : Uuid} :
    Follows (Inv hostOf) C i (Sent session)
      ((Bridge.awaitReply i).bind fun woken => conclude reqId woken) (.waiting session reqId) := by
  apply Follows.waitFor
  intro s V e hI hv _ _
  cases hreply : s.replies i with
  | none =>
    apply Follows.keep hv hI
    apply follows_conclude
    intro result h
    cases h
  | some result =>
    have hmine : ⟨i, session, reqId⟩ ∈ s.requests := by
      have hk := hI.knows i
      rwa [hv] at hk
    obtain ⟨r, hr, hcall, hsigned⟩ := hI.replies i result hreply
    -- the reply is for this call, and a call has one request
    have hrr := hI.drawn r hr _ hmine hcall
    subst hrr
    refine ⟨.answered session reqId result, ?_, ?_⟩
    · exact hI.setView i _ ⟨hmine, hsigned⟩ fun _ _ h => by cases h
    · apply follows_conclude
      intro result' h
      cases h
      rfl

theorem follows_sendRemote (peer : PeerInfo) (p : SendPayload) :
    Follows (Inv hostOf) C i (Sent session) (Bridge.sendRemote b i session peer p) .idle := by
  unfold Bridge.sendRemote
  simp only [Fiber.bind_eq, Fiber.pure_eq]
  apply (quiet_mapLive session).andThen
  rintro (_ | _)
  · intro result h
    cases h
  apply Follows.once
  intro s V e hI hv _
  refine ⟨.waiting session e.reqId, hI.insertPending hv session e.reqId, ?_⟩
  apply quiet_clock.andThen
  intro timestampMs
  split
  · exact (quiet_removePending _).andThen fun _ result h => by cases h
  · apply (quiet_broadcast session _).andThen
    rintro (_ | err)
    · exact follows_awaitReply
    · exact (quiet_removePending _).andThen fun _ result h => by cases h

theorem follows_handleSendAck (topic : SessionId) (reqId : Uuid) (result : Verdict)
    (hostSig : SigBytes) :
    Follows (Inv hostOf) (Sound hostOf ed) i (fun _ _ => True)
      (handleSendAck hostOf ed topic reqId result hostSig) .idle := by
  apply Follows.once
  intro s V e hI hv hC
  cases hverify : Signing.verifyAck ed (hostOf topic) topic reqId result hostSig with
  | error err => exact Follows.keep hv hI trivial
  | ok u =>
    have hsigned : Signed hostOf s topic reqId result := hC.1 hverify
    refine ⟨.verified topic reqId result, ?_, ?_⟩
    · exact hI.setView i _ hsigned fun _ _ h => by cases h
    · apply Follows.once
      intro s V e hI hv hC
      cases hpending : s.pendingSends reqId with
      | none => exact Follows.keep hv (hI.removePending reqId) trivial
      | some k =>
        -- with the entry out of the map no other ack can resolve this sender
        refine ⟨.holding k result, hI.takePending hv hpending hC.2, ?_⟩
        intro s V e hI hv _ _
        exact ⟨.delivered, hI.resolve hv, trivial⟩

theorem follows_body (o : Call) :
    Follows (Inv hostOf) (Sound hostOf ed) i (Returned o) (Call.body b hostOf i o) .idle := by
  cases o with
  | sendRemote session peer payload =>
    exact (follows_sendRemote b session peer payload).bind fun r v h => h
  | sendAck topic reqId result hostSig =>
    exact (follows_handleSendAck topic reqId result hostSig).bind fun _ _ _ => trivial
  | setSlot session live => exact (quiet_setSlot session live).andThen fun _ => trivial
  | signs key scope => exact (quiet_signs key scope).andThen fun _ => trivial

end Calls

theorem inv_empty : Inv hostOf .empty fun _ => .idle where
  knows _ _ hr := by cases hr
  drawn _ hq := by cases hq
  pending _ _ h := by cases h
  holders _ _ _ _ _ h := by cases h
  replies _ _ h := by cases h
  resolved _ h := by cases h
  once := List.nodup_nil

theorem tracked_calls {ms : List (Move Call Env)} (hms : CallsMeet b hostOf (Sound hostOf ed) ms) :
    Pool.Tracked (Inv hostOf) (Sound hostOf ed) Returned .idle (runCalls b hostOf ms) :=
  Pool.tracked_run (fun _ o _ => follows_body b o) (Pool.tracked_nil inv_empty) hms

/-- A verdict of a send was signed for its one request by the host. -/
theorem exists_request {ms : List (Move Call Env)} (hms : CallsMeet b hostOf (Sound hostOf ed) ms)
    {i : ℕ} {session : SessionId} {peer : PeerInfo} {payload : SendPayload}
    {r : Except BridgeError SessionMessage} {result : Verdict}
    (hcall : (runCalls b hostOf ms).callAt i = some (.sendRemote session peer payload))
    (hr : (runCalls b hostOf ms).result i = some (some r)) (hverdict : verdict r = some result) :
    ∃ reqId, (∀ q ∈ (runCalls b hostOf ms).world.requests, q.call = i ↔ q = ⟨i, session, reqId⟩) ∧
      ⟨i, session, reqId⟩ ∈ (runCalls b hostOf ms).world.requests ∧
      Signed hostOf (runCalls b hostOf ms).world session reqId result := by
  obtain ⟨V, hI, hresult⟩ := (tracked_calls b hms).of_result
  obtain ⟨o, ho, hreturned⟩ := hresult i (some r) hr
  cases hcall.symm.trans ho
  obtain ⟨reqId, hview⟩ := hreturned result hverdict
  have hk := hI.knows i
  rw [hview] at hk
  refine ⟨reqId, fun q hq => ⟨fun hqi => ?_, fun hqi => by rw [hqi]⟩, hk⟩
  exact hI.drawn q hq _ hk.1 hqi

/-- A verdict is signed by the call's own host for its one request, and none comes twice. -/
theorem verdict_signed (hostOf : SessionId → PeerId) (ms : List (Move Call Env))
    (hms : CallsMeet b hostOf (Sound hostOf ed) ms) :
    (∀ i session peer payload r result,
      (runCalls b hostOf ms).callAt i = some (.sendRemote session peer payload) →
      (runCalls b hostOf ms).result i = some (some r) → verdict r = some result →
      ∃ reqId, (∀ q ∈ (runCalls b hostOf ms).world.requests, q.call = i ↔ q = ⟨i, session, reqId⟩) ∧
        ⟨i, session, reqId⟩ ∈ (runCalls b hostOf ms).world.requests ∧
        Signed hostOf (runCalls b hostOf ms).world session reqId result) ∧
    (runCalls b hostOf ms).world.resolved.Nodup := by
  refine ⟨fun i session peer payload r result hcall hr => exists_request b hms hcall hr, ?_⟩
  obtain ⟨V, hI, -⟩ := tracked_calls b hms
  exact hI.once

section Sample

open Sample

def otherSession : SessionId := ⟨⟨List.replicate 16 3, by simp⟩⟩

def sampleHosts (s : SessionId) : PeerId := if s = otherSession then peer 3 else peer 0

def joiner : Config .checksum := ⟨peer 2, peer 2⟩

def note : SendPayload := ⟨.chat, "note", []⟩

def request : Uuid := ⟨List.replicate 16 7, by simp⟩

def accepted : Verdict := .ok (message 2 1 .chat "note" [])

def quietly : Env := ⟨request, 0, none, .reply⟩

/-- A send to the sample session is answered on `topic` by that topic's host. -/
def answerOn (topic : SessionId) : List (Move Call Env) :=
  let scope := Signing.ackCanonicalBytes topic request accepted
  [.call (.setSlot session true), .call (.sendRemote session (info 2) note),
    .call (.signs (sampleHosts topic) scope),
    .call (.sendAck topic request accepted
      (Signing.signAck .checksum (sampleHosts topic) topic request accepted))] ++
    ([0, 1, 1, 1, 1, 2, 3, 3, 3, 1].map fun i => .step i quietly)

theorem verdict_signed_ownTopic :
    ∃ reqId, (∀ q ∈ (runCalls joiner sampleHosts (answerOn session)).world.requests,
        q.call = 1 ↔ q = ⟨1, session, reqId⟩) ∧
      ⟨1, session, reqId⟩ ∈ (runCalls joiner sampleHosts (answerOn session)).world.requests ∧
      Signed sampleHosts (runCalls joiner sampleHosts (answerOn session)).world session reqId
        accepted :=
  (verdict_signed joiner sampleHosts (answerOn session) (by decide +kernel)).1 1 session (info 2)
    note (.ok (message 2 1 .chat "note" [])) accepted (by decide +kernel) (by decide +kernel) rfl

/-- Another session's host answers for the request, and the send returns that answer. -/
theorem other_host_resolves :
    CallsMeet joiner sampleHosts (fun l _ s => Unforged sampleHosts .checksum l s)
        (answerOn otherSession) ∧
      (runCalls joiner sampleHosts (answerOn otherSession)).callAt 1 =
        some (.sendRemote session (info 2) note) ∧
      (runCalls joiner sampleHosts (answerOn otherSession)).result 1 =
        some (some (.ok (message 2 1 .chat "note" []))) ∧
      ∀ x ∈ (runCalls joiner sampleHosts (answerOn otherSession)).world.signed,
        x.1 ≠ sampleHosts session := by
  decide +kernel

end Sample

end Artel.Bridge
