import Artel.Registry.JoinInvariant

namespace Artel.JoinOutcome

open Registry Function

section Subscribe

variable {me : ℕ} {v : View} (h : Handle)

theorem follows_joinSession :
    Follows Inv Orderly me (fun r w => w = if r.isNone then .succeeded h else .failed h)
      (joinSession h) (.claimant h) := by
  unfold joinSession
  simp only [Fiber.bind_eq]
  apply (slotBlind_inv.subscribeInner h (coarse_inv.spawn _)).andThen
  intro r s V e hI hv _ _
  have hown := hI.owner me h (by rw [hv]; rfl)
  -- the mirror counts as failed while its outcome is noted, and then as what it is
  have hfailed : Inv s (update V me (.failed h)) := by
    apply hI.setView
    · intro k hk
      rw [hv]
      exact hk
    · exact fun k hk => by cases hk
    · exact fun k hk => by cases hk
    · exact fun k hk => by cases hk
  have hno : ∀ i, update V me (.failed h) i ≠ .claimant h := by
    intro i hi
    by_cases him : i = me
    · rw [him, update_self] at hi
      cases hi
    · rw [update_of_ne him] at hi
      exact him (hI.unique i h (by rw [hi]; rfl) me (by rw [hv]; rfl))
  have hjoined := hfailed.addJoin r.isNone hown.2 (hI.claimant me h hv) hno
  cases r with
  | some err => exact ⟨_, hjoined, rfl⟩
  | none =>
    refine ⟨.succeeded h, ?_, rfl⟩
    have hset := hjoined.setView me (.succeeded h)
    rw [update_idem, update_self] at hset
    apply hset
    · exact fun k hk => hk
    · exact fun k hk => by cases hk
    · intro k hk
      cases hk
      exact List.mem_append_right _ (List.mem_singleton.mpr rfl)
    · exact fun k hk => by cases hk

theorem follows_rollbackRemoteMirror :
    Follows Inv Orderly me (fun _ w => w = .rolledBack h) (rollbackRemoteMirror h)
      (.failed h) := by
  apply Follows.waitFor
  intro s V e hI hv _ _
  have hgone : Inv { s with sessions := none } V := by
    refine { hI with entry := ?_, pending := ?_, rolledBack := ?_ }
    · exact fun k hk => by cases hk
    · exact fun k _ => .inr rfl
    · exact fun _ _ _ => rfl
  refine ⟨.rolledBack h, ?_, (coarse_inv.store _ _).andThen fun _ => rfl⟩
  apply hgone.setView
  · intro k hk
    rw [hv]
    exact hk
  · exact fun k hk => by cases hk
  · exact fun k hk => by cases hk
  · exact fun _ _ => rfl

theorem follows_finish_false :
    Follows Inv Orderly me (fun _ w => w = .idle) (finish h false) (.rolledBack h) := by
  unfold finish
  simp only [Fiber.bind_eq]
  apply Follows.once
  intro s V e hI hv _
  apply Follows.keep hv
  · refine { hI with posted := ?_ }
    intro k hk
    simp only [update_apply] at hk
    split at hk
    · cases hk
    · exact hI.posted k hk
  · intro s V e hI hv _ _
    refine ⟨.idle, ?_, rfl⟩
    apply hI.finish (by rw [hv]; rfl) rfl
    · exact fun k hk => by cases hk
    · intro k hk
      rw [hI.rolledBack me h hv] at hk
      cases hk

theorem follows_finish_true :
    Follows Inv Orderly me (fun _ w => w = .joined h) (finish h true) (.succeeded h) := by
  unfold finish
  simp only [Fiber.bind_eq]
  apply Follows.once
  intro s V e hI hv _
  have hmem := hI.vouched me h (by rw [hv]; rfl)
  apply Follows.keep hv
  · refine { hI with posted := ?_ }
    intro k hk
    simp only [update_apply] at hk
    split at hk
    · rename_i hkh
      rw [hkh]
      exact hmem
    · exact hI.posted k hk
  · intro s V e hI hv _ _
    have hmem := hI.vouched me h (by rw [hv]; rfl)
    refine ⟨.joined h, ?_, rfl⟩
    apply hI.finish (by rw [hv]; rfl) rfl
    · intro k hk
      cases hk
      exact hmem
    · intro k hk
      rcases hI.entry k hk with hk' | hk'
      · exact hk'
      · rw [(hI.owner me h (by rw [hv]; rfl)).1] at hk'
        cases hk'
        exact hmem

theorem follows_driveSubscribe :
    Follows Inv Orderly me (fun a w => ∀ k, a = .ok k → w = .joined k) (driveSubscribe me h)
      (.claimant h) := by
  apply (coarse_inv.lock h).andThen
  intro _
  apply (coarse_inv.unlock h).andThen
  intro _
  apply (follows_joinSession h).bind
  rintro (_ | err) w rfl
  · apply (follows_finish_true h).bind
    rintro _ w rfl k hk
    cases hk
    rfl
  · apply (follows_rollbackRemoteMirror h).bind
    rintro _ w rfl
    apply (follows_finish_false h).bind
    rintro _ w rfl k hk
    cases hk

end Subscribe

def Claimed : Except SessionError MirrorClaim → View → Prop
  | .error _, _ => True
  | .ok (.fresh h), w => w = .claimant h
  | .ok (.adopted h none), w => w = .joined h
  | .ok (.adopted h (some outcome)), w => outcome = h ∧ w = .idle

section Join

variable {me : ℕ}

theorem follows_adoptClaim (h : Handle) :
    Follows Inv Orderly me (fun a w => Claimed (.ok a) w) (adoptClaim h) .idle := by
  intro s V e hI hv _ hC
  have hentry : s.sessions = some h := hC
  cases hpending : s.pendingRemoteJoins with
  | none =>
    rcases hI.entry h hentry with hh | hh
    · refine ⟨.joined h, hI.vouch hh, ?_⟩
      simp only [hpending]
      rfl
    · rw [hpending] at hh
      cases hh
  | some outcome =>
    apply Follows.keep hv hI
    simp only [hpending]
    refine ⟨?_, rfl⟩
    -- the guard: the mirror is still in the map, so the marker is its own
    rcases hI.pending outcome hpending with hh | hh
    · rw [hentry] at hh
      cases hh
      rfl
    · rw [hentry] at hh
      cases hh

theorem follows_claimSlot (session : Session) {β : Type} {R : β → View → Prop}
    {k : Handle ⊕ Handle → Async β}
    (hadopt : ∀ h, Follows Inv Orderly me R (k (.inl h)) .idle)
    (hfresh : ∀ h, Follows Inv Orderly me R (k (.inr h)) (.claimant h)) :
    Follows Inv Orderly me R ((claimSlot session).bind k) .idle := by
  apply Follows.waitFor
  intro s V e hI hv _ hC
  cases hs : s.sessions with
  | some h => exact Follows.keep hv hI (hadopt h)
  | none => exact ⟨_, hI.claim me session (hC hs), hfresh _⟩

theorem follows_claimRemoteMirror (id : SessionId) (host : PeerId) (hostEpoch : UInt64) :
    Follows Inv Orderly me Claimed (claimRemoteMirror id host hostEpoch) .idle := by
  have hlookup : Quiet Inv Orderly me .idle lookup := .waitFor fun _ _ _ hI _ _ => hI
  apply hlookup.andThen
  intro found
  cases found with
  | some h =>
    apply (follows_adoptClaim h).bind
    exact fun _ _ hclaim => hclaim
  | none =>
    refine (coarse_inv.store _ _).except (fun _ => trivial) fun _ => ?_
    apply follows_claimSlot
    · intro h
      apply (follows_adoptClaim h).bind
      exact fun _ _ hclaim => hclaim
    · exact fun h => rfl

theorem follows_awaitClaimantOutcome (h : Handle) :
    Follows Inv Orderly me (fun a w => ∀ k, a = .ok k → w = .joined k)
      (awaitClaimantOutcome h h) .idle := by
  intro s V e hI hv _ _
  by_cases hh : s.watches h = some true
  · refine ⟨.joined h, hI.vouch (hI.posted h hh), ?_⟩
    intro k hk
    dsimp only at hk
    rw [if_pos hh] at hk
    cases hk
    rfl
  · apply Follows.keep hv hI
    intro k hk
    dsimp only at hk
    rw [if_neg hh] at hk
    cases hk

variable {ed : Ed25519} (d : Daemon ed) (id : SessionId)

theorem follows_materialiseRemoteSession (ticket : SessionTicket) :
    Follows Inv Orderly me (fun a w => ∀ k, a = .ok k → w = .joined k)
      (materialiseRemoteSession d id me ticket) .idle := by
  unfold materialiseRemoteSession
  split
  · exact fun k hk => by cases hk
  apply (follows_claimRemoteMirror id _ _).bind
  rintro (e | ⟨h | ⟨h, _ | outcome⟩⟩) w hw
  · exact fun k hk => by cases hk
  · rw [hw]
    exact follows_driveSubscribe h
  · intro k hk
    cases hk
    exact hw
  · obtain ⟨rfl, rfl⟩ := hw
    exact follows_awaitClaimantOutcome outcome

theorem follows_join (ticket : SessionTicket) (peer : PeerInfo) :
    Follows Inv Orderly me (fun a w => ∀ h head, a = .ok (.joined h head) → w = .joined h)
      (join d id me ticket peer) .idle := by
  have hmember : ∀ h, Follows Inv Orderly me
      (fun a w => ∀ k head, a = .ok (.joined k head) → w = .joined k)
      (joinMember me h peer) (.joined h) := by
    intro h
    apply (coarse_inv.joinMember h peer).mono
    rintro a w ⟨rfl, ha⟩ k head hk
    rw [ha k head hk]
  apply Follows.waitFor
  intro s V e hI hv _ hC
  cases hs : s.sessions with
  | some h =>
    rcases hI.entry h hs with hh | hh
    · exact ⟨.joined h, hI.vouch hh, hmember h⟩
    · rw [hC (by rw [hs]; simp)] at hh
      cases hh
  | none =>
    apply Follows.keep hv hI
    dsimp only
    split
    · exact fun k head hk => by cases hk
    · apply (follows_materialiseRemoteSession d id ticket).bind
      rintro (e | h) w hw
      · exact fun k head hk => by cases hk
      · rw [hw h rfl]
        exact hmember h

end Join

def IsJoin : Call → Prop
  | .join _ _ => True
  | _ => False

instance : DecidablePred IsJoin
  | .join _ _ => isTrue trivial
  | .host _ _ | .leave _ | .hostClosedSession | .advanceHostEpochWatermark _ |
    .ensureMember _ _ | .send _ | .subscribe _ | .inbound _ _ | .deliver _ _ => isFalse not_false

instance (l : Label) (e : Env) (s : World) : Decidable (Orderly l e s) := by
  unfold Orderly
  split <;> infer_instance

theorem inv_empty (blank : Session) (disk : Store.Disk) :
    Inv (.empty blank disk) fun _ => .idle := by
  constructor <;> simp [World.empty, View.claim, View.vouches]

/-- In an orderly history a join succeeds only for a mirror whose claimant has subscribed. -/
theorem joined_subscribed {ed : Ed25519} (d : Daemon ed) (id : SessionId) (blank : Session)
    (disk : Store.Disk) (ms : List (Move Call Env))
    (hms : CallsMeet d id (.empty blank disk) IsJoin Orderly ms) (i : ℕ) (h : Handle)
    (hi : ((runCalls d id (.empty blank disk) ms).result i).bind joinedMirror = some h) :
    (h, true) ∈ (runCalls d id (.empty blank disk) ms).world.joins ∧
      (h, false) ∉ (runCalls d id (.empty blank disk) ms).world.joins := by
  have hbody : ∀ i o, IsJoin o → Follows Inv Orderly i
      (fun a w => ∀ h head, a = .ok (.joined h head) → w = .joined h)
      (Call.body d id i o) .idle := by
    intro i o ho
    cases o with
    | join ticket peer => exact follows_join d id ticket peer
    | _ => cases ho
  have htracked := Pool.tracked_run hbody (Pool.tracked_nil (inv_empty blank disk)) hms
  obtain ⟨V, hI, hresult⟩ := htracked.of_result
  obtain ⟨a, ha, hjoined⟩ := Option.bind_eq_some_iff.mp hi
  obtain ⟨o, -, hw⟩ := hresult i a ha
  have hview : V i = .joined h := by
    unfold joinedMirror at hjoined
    split at hjoined
    · cases hjoined
      exact hw _ _ rfl
    · cases hjoined
  have hmem := hI.vouched i h (by rw [hview]; rfl)
  exact ⟨hmem, hI.single h hmem⟩

section Sample

open Sample

/-- One join at a time: the first claims the mirror and subscribes, the second finds it. -/
def orderlyJoins : List (Move Call Env) :=
  [.call (.join remoteTicket (info 0)), .call (.join remoteTicket (info 2))] ++
    steps 0 19 calm ++ steps 1 6 calm

theorem joined_subscribed_second :
    (0, true) ∈ (runCalls daemon session (.empty blank noDisk) orderlyJoins).world.joins ∧
      (0, false) ∉ (runCalls daemon session (.empty blank noDisk) orderlyJoins).world.joins :=
  joined_subscribed daemon session blank noDisk orderlyJoins (by decide +kernel) 1 0
    (by decide +kernel)

/-- The second join looks the id up while the first, which then fails, subscribes. -/
def overtakenClaim : List (Move Call Env) :=
  [.call (.join remoteTicket (info 0)), .call (.join remoteTicket (info 2))] ++
    steps 0 4 calm ++ steps 1 6 calm ++ steps 0 10 stormy

theorem join_ok_before_rollback :
    ((runCalls daemon session (.empty blank noDisk) overtakenClaim).result 1).bind joinedMirror =
        some 0 ∧
      (0, true) ∉ (runCalls daemon session (.empty blank noDisk) overtakenClaim).world.joins ∧
      (0, false) ∈ (runCalls daemon session (.empty blank noDisk) overtakenClaim).world.joins ∧
      (runCalls daemon session (.empty blank noDisk) overtakenClaim).world.sessions = none := by
  decide +kernel

end Sample

end Artel.JoinOutcome
