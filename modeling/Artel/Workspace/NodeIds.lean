import Artel.Lib.Run
import Artel.Workspace.Host
import Artel.Workspace.PeerFilter

namespace Artel.Workspace

/-- A signature verifies for nothing but what the holder of the endpoint's key has signed. -/
def Unforgeable (ed : Ed25519) (signed : EndpointId → Bytes → Prop) : Prop :=
  ∀ (workspaceId : EndpointId) bytes signature,
    ed.verifyStrict ⟨workspaceId.bytes⟩ bytes signature = true → signed workspaceId bytes

/-- The holder of the endpoint's key has signed bytes that are those of this triple alone. -/
def Agreed (signed : EndpointId → Bytes → Prop) (session : SessionId) (peer : PeerId)
    (workspaceId : EndpointId) : Prop :=
  ∃ bytes, signed workspaceId bytes ∧ ∀ session' peer' workspaceId',
    bytes = nodeIdAnnounceSignedBytes session' peer' workspaceId' ↔
      session' = session ∧ peer' = peer ∧ workspaceId' = workspaceId

theorem nodeIdAnnounceSignedBytes_injective {s t : SessionId} {p q : PeerId} {e f : EndpointId}
    (h : nodeIdAnnounceSignedBytes s p e = nodeIdAnnounceSignedBytes t q f) :
    t = s ∧ q = p ∧ f = e := by
  simp only [nodeIdAnnounceSignedBytes, List.append_assoc] at h
  obtain ⟨-, h⟩ := List.append_inj h rfl
  obtain ⟨hsession, h⟩ := FixedBytes.append_inj h
  obtain ⟨hpeer, hendpoint⟩ := FixedBytes.append_inj h
  exact ⟨congrArg SessionId.mk hsession.symm, congrArg PeerId.mk hpeer.symm,
    congrArg EndpointId.mk (Subtype.ext hendpoint.symm)⟩

section

variable {ed : Ed25519} {signed : EndpointId → Bytes → Prop} (hsigned : Unforgeable ed signed)
  {session : SessionId}
include hsigned

theorem agreed_of_announced {m : SessionMessage} {workspaceId : EndpointId}
    (h : announced ed session m = some workspaceId) :
    Agreed signed session m.peer.id workspaceId := by
  unfold announced at h
  split at h
  · cases h
  · split at h
    · rename_i hverified
      obtain rfl := Option.some.inj h
      refine ⟨_, hsigned _ _ _ hverified.2, fun session' peer' workspaceId' => ?_⟩
      exact ⟨nodeIdAnnounceSignedBytes_injective, by rintro ⟨rfl, rfl, rfl⟩; rfl⟩
    · cases h

theorem PeerMap.idMap_observe {map : PeerMap} {m : SessionMessage} {workspaceId : EndpointId}
    {peer : PeerId} (h : (map.observe ed session m).idMap workspaceId = some peer) :
    map.idMap workspaceId = some peer ∨ Agreed signed session peer workspaceId := by
  obtain ⟨claimed, -, -, hannounced, hobserve⟩ | hobserve := map.observe_cases ed session m
  · rw [hobserve] at h
    by_cases heq : workspaceId = claimed
    · subst heq
      obtain rfl : m.peer.id = peer := by simpa [PeerMap.register] using h
      exact .inr (agreed_of_announced hsigned hannounced)
    · exact .inl (by simpa [PeerMap.register, heq] using h)
  · rw [hobserve, PeerMap.applyMessage_idMap] at h
    exact .inl h

theorem PeerMap.idMap_foldl_observe (messages : List SessionMessage) {map : PeerMap}
    {workspaceId : EndpointId} {peer : PeerId}
    (h : (messages.foldl (PeerMap.observe ed session) map).idMap workspaceId = some peer) :
    map.idMap workspaceId = some peer ∨ Agreed signed session peer workspaceId := by
  induction messages generalizing map with
  | nil => exact .inl h
  | cons m messages ih =>
    obtain h | h := ih h
    · exact PeerMap.idMap_observe hsigned h
    · exact .inr h

end

theorem Host.peerMap_foldl_handleMessage (site : Site) (messages : List SessionMessage) (h : Host) :
    (messages.foldl (fun h m => (h.handleMessage site m).1) h).peerMap =
      messages.foldl (PeerMap.observe site.ed (site.sessionIdFor h.genesis)) h.peerMap := by
  induction messages generalizing h with
  | nil => rfl
  | cons m messages ih =>
    have hspec := (handleMessage_spec site h m).1
    rw [List.foldl_cons, List.foldl_cons, ih, hspec.keeps.genesis, hspec.peerMap]

/-- Every binding in a map was agreed to by the holder of the endpoint's key. -/
theorem bindings_agreed (site : Site) {signed : EndpointId → Bytes → Prop}
    (hsigned : Unforgeable site.ed signed) (messages : List SessionMessage)
    (workspaceId : EndpointId) (peer : PeerId) :
    (∀ h : Host, (messages.foldl (fun h m => (h.handleMessage site m).1) h).peerMap.idMap
        workspaceId = some peer →
      h.peerMap.idMap workspaceId = some peer ∨
        Agreed signed (site.sessionIdFor h.genesis) peer workspaceId) ∧
    ∀ (session : SessionId) (map : PeerMap),
      (messages.foldl (PeerMap.observe site.ed session) map).idMap workspaceId = some peer →
        map.idMap workspaceId = some peer ∨ Agreed signed session peer workspaceId := by
  constructor
  · intro h hmap
    rw [Host.peerMap_foldl_handleMessage] at hmap
    exact PeerMap.idMap_foldl_observe hsigned messages hmap
  · intro session map hmap
    exact PeerMap.idMap_foldl_observe hsigned messages hmap

theorem Sample.bindings_agreed_endpoint :
    Agreed (fun e bytes => ∃ signature, Ed25519.checksum.verifyStrict ⟨e.bytes⟩ bytes signature = true)
      Artel.Sample.session (Artel.Sample.peer 2) (endpoint 7) := by
  refine ((bindings_agreed ⟨.checksum, Artel.Sample.peer 0, fun _ => Artel.Sample.session⟩
    (fun _ _ signature h => ⟨signature, h⟩) [announcement 2 2 (endpoint 7)] (endpoint 7)
    (Artel.Sample.peer 2)).2 Artel.Sample.session (.replaying (Artel.Sample.peer 0)) ?_).resolve_left
    nofun
  decide +kernel

/-- The deliveries to one peer, under way and made. -/
structure Attempts where
  host : Host
  inFlight : List RedeliveryStamp
  delivered : List RedeliveryStamp

inductive AttemptEvent
  | claim (stamp : RedeliveryStamp)
  /-- The `k`-th attempt under way ends. -/
  | succeed (k : ℕ)
  | rollback (k : ℕ)
  deriving DecidableEq

namespace Attempts

variable (peer : PeerId)

def step (s : Attempts) : AttemptEvent → Attempts
  | .claim stamp =>
    match s.host.claimRedelivery peer stamp with
    | none => s
    | some host => ⟨host, s.inFlight ++ [stamp], s.delivered⟩
  | .succeed k =>
    match s.inFlight[k]? with
    | none => s
    | some stamp => ⟨s.host, s.inFlight.eraseIdx k, s.delivered ++ [stamp]⟩
  | .rollback k =>
    match s.inFlight[k]? with
    | none => s
    | some stamp => ⟨s.host.rollbackRedelivery peer stamp, s.inFlight.eraseIdx k, s.delivered⟩

/-- Rollbacks leave newer claims, and no stamp is claimed twice. -/
structure Ordered (s : Attempts) : Prop where
  newer : ∀ stamp claimed : RedeliveryStamp, s.host.redelivered peer = some claimed →
    claimed.le stamp = false → (s.host.rollbackRedelivery peer stamp).redelivered peer = some claimed
  nodup : s.inFlight.Nodup
  refused : ∀ done ∈ s.delivered, ∀ stamp : RedeliveryStamp, stamp.le done = true →
    s.host.claimRedelivery peer stamp = none

/-- The newest claim is rolled back only if it is the one attempt there has been. -/
def Alone (s : Attempts) : AttemptEvent → Prop
  | .rollback k => ∀ stamp, s.inFlight[k]? = some stamp → s.host.redelivered peer = some stamp →
      s.inFlight = [stamp] ∧ s.delivered = []
  | .claim _ | .succeed _ => True

theorem le_trans {a b c : RedeliveryStamp} (hab : a.le b = true) (hbc : b.le c = true) :
    a.le c = true := by
  simp only [RedeliveryStamp.le, Bool.or_eq_true, Bool.and_eq_true, decide_eq_true_eq,
    beq_iff_eq] at hab hbc ⊢
  grind

theorem le_of_not_le {a b : RedeliveryStamp} (h : a.le b = false) : b.le a = true := by
  simp only [RedeliveryStamp.le, Bool.or_eq_false_iff, Bool.and_eq_false_iff,
    decide_eq_false_iff_not, beq_eq_false_iff_ne] at h
  simp only [RedeliveryStamp.le, Bool.or_eq_true, Bool.and_eq_true, decide_eq_true_eq, beq_iff_eq]
  grind

theorem le_refl (a : RedeliveryStamp) : a.le a = true := by
  simp [RedeliveryStamp.le]

/-- The mark is at or above everything under way and everything delivered. -/
structure Inv (s : Attempts) : Prop where
  nodup : s.inFlight.Nodup
  marked : ∀ stamp, stamp ∈ s.inFlight ∨ stamp ∈ s.delivered →
    ∃ mark, s.host.redelivered peer = some mark ∧ stamp.le mark = true

variable {peer}

theorem Inv.claim {s : Attempts} (h : Inv peer s) {stamp : RedeliveryStamp} {host : Host}
    (hclaim : s.host.claimRedelivery peer stamp = some host) :
    Inv peer ⟨host, s.inFlight ++ [stamp], s.delivered⟩ := by
  unfold Host.claimRedelivery at hclaim
  split at hclaim
  · cases hclaim
  rename_i hfree
  obtain rfl := Option.some.inj hclaim
  have habove : ∀ earlier, earlier ∈ s.inFlight ∨ earlier ∈ s.delivered →
      stamp.le earlier = false ∧ earlier.le stamp = true := by
    intro earlier hearlier
    obtain ⟨mark, hmark, hle⟩ := h.marked earlier hearlier
    rw [hmark] at hfree
    have hbelow : stamp.le mark = false := by simpa using hfree
    refine ⟨?_, le_trans hle (le_of_not_le hbelow)⟩
    by_contra hle'
    rw [le_trans (by simpa using hle') hle] at hbelow
    cases hbelow
  refine ⟨?_, fun earlier hearlier => ⟨stamp, Function.update_self .., ?_⟩⟩
  · have hnew : stamp ∉ s.inFlight := by
      intro hmem
      have hfalse := (habove stamp (.inl hmem)).1
      rw [le_refl] at hfalse
      cases hfalse
    simpa [List.nodup_append] using ⟨h.nodup, fun a ha heq => hnew (heq ▸ ha)⟩
  · simp only [List.mem_append, List.mem_singleton] at hearlier
    obtain (hmem | rfl) | hmem := hearlier
    · exact (habove earlier (.inl hmem)).2
    · exact le_refl earlier
    · exact (habove earlier (.inr hmem)).2

theorem Inv.step {s : Attempts} (h : Inv peer s) {event : AttemptEvent}
    (halone : Alone peer s event) : Inv peer (Attempts.step peer s event) := by
  cases event with
  | claim stamp =>
    simp only [Attempts.step]
    split
    · exact h
    · rename_i host hclaim
      exact h.claim hclaim
  | succeed k =>
    simp only [Attempts.step]
    split
    · exact h
    rename_i stamp hstamp
    refine ⟨h.nodup.eraseIdx k, fun other hother => h.marked other ?_⟩
    simp only [List.mem_append, List.mem_singleton] at hother
    obtain hmem | hmem | rfl := hother
    · exact .inl (List.mem_of_mem_eraseIdx hmem)
    · exact .inr hmem
    · exact .inl (List.mem_of_getElem? hstamp)
  | rollback k =>
    simp only [Attempts.step]
    split
    · exact h
    rename_i stamp hstamp
    by_cases hmark : s.host.redelivered peer = some stamp
    · obtain ⟨hone, hnone⟩ := halone stamp hstamp hmark
      have hgone : s.inFlight.eraseIdx k = [] := by
        rw [hone] at hstamp ⊢
        cases k with
        | zero => rfl
        | succ k => cases hstamp
      rw [hgone, hnone]
      exact ⟨List.nodup_nil, by simp⟩
    · rw [Host.rollbackRedelivery, if_neg hmark]
      refine ⟨h.nodup.eraseIdx k, fun other hother => h.marked other ?_⟩
      exact hother.imp_left List.mem_of_mem_eraseIdx

theorem Inv.ordered {s : Attempts} (h : Inv peer s) : Ordered peer s := by
  refine ⟨fun stamp claimed hclaimed hle => ?_, h.nodup, fun done hdone stamp hle => ?_⟩
  · unfold Host.rollbackRedelivery
    split
    · rename_i heq
      obtain rfl : claimed = stamp := Option.some.inj (hclaimed.symm.trans heq)
      rw [le_refl] at hle
      cases hle
    · exact hclaimed
  · obtain ⟨mark, hmark, hbelow⟩ := h.marked done (.inr hdone)
    exact if_pos (by rw [hmark]; exact le_trans hle hbelow)

/-- Deliveries keep their order if no claim is rolled back over an earlier one. -/
theorem redeliveries_ordered (peer : PeerId) (host : Host) (events : List AttemptEvent)
    (halone : Along (Attempts.step peer) (Alone peer) ⟨host, [], []⟩ events) :
    Ordered peer (events.foldl (Attempts.step peer) ⟨host, [], []⟩) := by
  have hstart : Inv peer ⟨host, [], []⟩ := ⟨List.nodup_nil, by simp⟩
  exact (halone.invariant (fun s event hs hc => Inv.step hs hc) hstart).ordered

end Attempts

namespace Sample

open Artel.Sample

def idleHost : Host where
  genesis := 0
  peerMap := .replaying (peer 0)
  listener := .stopped
  lastSeq := none
  upgradeSecret := 0
  currentWriteTicket := (0, 0)
  redelivered _ := none
  tasks := []
  signals := []
  doc := 0
  namespaceEpoch := 0
  rotatedRevokeSeq := Seq.ZERO
  rotation := .idle

def announcedAt (seq : UInt64) : RedeliveryStamp := ⟨0, ⟨seq⟩⟩

def attempts (events : List AttemptEvent) : Attempts :=
  events.foldl (Attempts.step (peer 1)) ⟨idleHost, [], []⟩

def retried : List AttemptEvent :=
  [.claim (announcedAt 1), .rollback 0, .claim (announcedAt 1), .claim (announcedAt 2), .rollback 0]

theorem redeliveries_ordered_retried : Attempts.Ordered (peer 1) (attempts retried) := by
  refine Attempts.redeliveries_ordered (peer 1) idleHost retried
    ⟨trivial, ?_, trivial, trivial, ?_, trivial⟩
  · intro stamp hstamp _
    exact ⟨congrArg (fun s => [s]) (Option.some.inj hstamp), rfl⟩
  · intro stamp hstamp hmark
    exact absurd (hstamp.trans hmark.symm) (by decide +kernel)

/-- After the newer attempt's rollback the older stamp is claimed again. -/
theorem claimed_again :
    (attempts [.claim (announcedAt 1), .claim (announcedAt 2), .rollback 1,
        .claim (announcedAt 1)]).inFlight = [announcedAt 1, announcedAt 1] ∧
      (attempts [.claim (announcedAt 1), .succeed 0, .claim (announcedAt 2), .rollback 0,
        .claim (announcedAt 1)]).inFlight = [announcedAt 1] := by
  decide +kernel

end Sample

end Artel.Workspace
