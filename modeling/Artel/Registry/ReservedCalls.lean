import Artel.Registry.ReservedInvariant

namespace Artel.Reserved

open Registry

variable {a : String}

def Replays (a : String) : Outcome → Prop
  | .ok (.subscription _ replay _) => ∀ m ∈ replay, Injected a m
  | _ => True

theorem not_of_not_reserved (ha : reservedSystemAction a ≠ none) {m : SessionMessage}
    (hm : isReserved m = false) : ¬ (m.kind = .system ∧ m.action = a) := by
  rintro ⟨hkind, haction⟩
  obtain ⟨r, hr⟩ := Option.ne_none_iff_exists'.mp ha
  simp [isReserved, hkind, haction, hr] at hm

theorem injected_of_not {m : SessionMessage} (hm : ¬ (m.kind = .system ∧ m.action = a)) :
    Injected a m :=
  fun hkind haction => absurd ⟨hkind, haction⟩ hm

theorem injected_replay (ha : reservedSystemAction a ≠ none) (s : Session) (since : Option Seq) :
    ∀ m ∈ replay s since, Injected a m := by
  intro m hm
  rcases List.mem_append.mp hm with hm | hm
  · obtain ⟨envelope, -, rfl⟩ := Option.map_eq_some_iff.mp (Option.mem_toList.mp hm)
    exact fun _ _ => rfl
  · have hres := (List.mem_filter.mp hm).2
    exact injected_of_not (not_of_not_reserved ha (by simpa using (of_decide_eq_true hres).2))

section Calls

variable {me : ℕ} {v : View}

/-- A call whose replay holds the action only as the daemon's own. -/
abbrev Sound (a : String) (me : ℕ) (v : View) (t : Async Outcome) : Prop :=
  Follows (Inv a) Free me (fun r _ => Replays a r) t v

theorem sound_release (h : Handle) {r : Outcome} (hr : Replays a r) :
    Sound a me v ((unlock h).bind fun _ => .ret r) :=
  (quiet_unlock h).andThen fun _ => hr

theorem follows_joinMember (h : Handle) (peer : PeerInfo) :
    Sound a me v (joinMember me h peer) := by
  unfold joinMember
  simp only [Fiber.bind_eq, Fiber.pure_eq]
  apply (quiet_lock h).andThen
  intro s
  split
  · exact sound_release h trivial
  refine (quiet_store _ _).except (fun _ => sound_release h trivial) fun _ => ?_
  refine (quiet_update h ?_ ?_).andThen fun _ => ?_
  · exact fun _ => rfl
  · exact fun _ => rfl
  refine (quiet_emit h ?_).andThen fun _ => ?_
  · exact fun m hm => by cases hm
  exact sound_release h trivial

theorem follows_leave (id : SessionId) (peer : PeerId) :
    Sound a me v (leave id me peer) := by
  refine (quiet_lookup _).option trivial fun h => ?_
  apply (quiet_lock h).andThen
  intro s
  split
  · exact sound_release h trivial
  refine (quiet_store _ _).except (fun _ => sound_release h trivial) fun _ => ?_
  refine (quiet_update h ?_ ?_).andThen fun _ => ?_
  · exact fun _ => rfl
  · exact fun _ => rfl
  refine (quiet_emit h ?_).andThen fun _ => ?_
  · intro m hm
    split at hm <;> cases hm
  apply (quiet_unlock h).andThen
  intro _
  split
  · apply (quiet_unpublish _).andThen
    intro _
    exact (slotBlind_inv.forget h).andThen fun _ => trivial
  · trivial

theorem follows_hostClosedSession :
    Sound a me v (hostClosedSession me) := by
  refine (quiet_lookup _).option trivial fun h => ?_
  apply (quiet_lock h).andThen
  intro s
  split
  · exact sound_release h trivial
  refine (quiet_store _ _).except (fun _ => sound_release h trivial) fun _ => ?_
  apply (quiet_unlock h).andThen
  intro _
  apply (quiet_unpublish _).andThen
  intro _
  refine (quiet_emit h ?_).andThen fun _ => ?_
  · exact fun m hm => by cases hm
  exact (slotBlind_inv.forget h).andThen fun _ => trivial

theorem follows_advanceHostEpochWatermark (hostEpoch : UInt64) :
    Sound a me v (advanceHostEpochWatermark me hostEpoch) := by
  refine (quiet_lookup _).option trivial fun h => ?_
  apply (quiet_lock h).andThen
  intro s
  split
  · exact sound_release h trivial
  refine (quiet_store _ _).except (fun _ => sound_release h trivial) fun _ => ?_
  refine (quiet_update h ?_ ?_).andThen fun _ => ?_
  · exact fun _ => rfl
  · exact fun _ => rfl
  exact sound_release h trivial

variable {ed : Ed25519} (d : Daemon ed) (id : SessionId)

theorem follows_sendLocal (h : Handle) (draft : Draft)
    (hdraft : ¬ (draft.kind = .system ∧ draft.action = a)) :
    Sound a me v (sendLocal d me h draft) := by
  apply (quiet_lock h).andThen
  intro s
  have hclock : Quiet (Inv a) Free me v clock := .once fun _ _ _ hI _ _ => hI
  apply hclock.andThen
  intro nowMs
  cases hprep : prepareSend d s nowMs draft with
  | error e => exact sound_release h trivial
  | ok m =>
    have hm : ¬ (m.kind = .system ∧ m.action = a) := by
      have hprepared := prepareSend_ok d hprep
      rw [hprepared.kind, hprepared.action]
      exact hdraft
    refine (quiet_store _ _).except (fun _ => sound_release h trivial) fun _ => ?_
    have hcommit : Quiet (Inv a) Free me v (update h fun s => commitSend s m) := by
      apply Quiet.once
      intro _ s V hI _ _
      dsimp only
      apply hI.modify
      · exact fun _ => rfl
      · intro _ k hk
        rcases List.mem_append.mp hk with hk | hk
        · exact .inl hk
        · rw [List.mem_singleton.mp hk]
          exact .inr hm
      · exact fun k hk => .inl hk
    apply hcommit.andThen
    intro _
    apply (quiet_unlock h).andThen
    intro _
    refine (quiet_emit h ?_).andThen fun _ => ?_
    · intro k hk
      cases hk
      exact injected_of_not hm
    split
    · trivial
    · exact (joinBlind_inv.publish m).andThen fun _ => trivial

theorem follows_send (ha : reservedSystemAction a ≠ none) (draft : Draft) :
    Sound a me v (send d id me draft) := by
  unfold send
  split
  · trivial
  rename_i hreserved
  have hdraft : ¬ (draft.kind = .system ∧ draft.action = a) := by
    rintro ⟨hkind, haction⟩
    rw [if_pos hkind, haction] at hreserved
    exact ha hreserved
  refine (quiet_lookup _).option trivial fun h => ?_
  apply (quiet_lock h).andThen
  intro s
  apply (quiet_unlock h).andThen
  intro _
  split
  · trivial
  split
  · apply Follows.once
    intro s V e hI hv _
    apply Follows.keep hv hI
    split
    · trivial
    · cases mapSendRemoteResult _ <;> trivial
  · exact follows_sendLocal d h draft hdraft

theorem quiet_noteUse (h : Handle) (tickets : Option (List TicketEntry)) :
    Quiet (Inv a) Free me v (noteUse h tickets) := by
  unfold noteUse
  cases tickets with
  | none => exact rfl
  | some tickets =>
    refine (quiet_update h ?_ ?_).andThen fun _ => ?_
    · exact fun _ => rfl
    · exact fun _ => rfl
    exact (quiet_store _ _).andThen fun _ => rfl

section

variable (ha : reservedSystemAction a ≠ none)
include ha

theorem follows_ensureMember (peer : PeerInfo)
    (claim : Option CapClaim) :
    Sound a me v (ensureMember d id me peer claim) := by
  have hclock : Quiet (Inv a) Free me v clock := .once fun _ _ _ hI _ _ => hI
  apply hclock.andThen
  intro nowMs
  split
  · trivial
  refine (quiet_lookup _).option trivial fun h => ?_
  apply (quiet_lock h).andThen
  intro s
  split
  · exact sound_release h trivial
  split
  · exact sound_release h trivial
  refine (quiet_store _ _).except (fun _ => sound_release h trivial) fun _ => ?_
  refine (quiet_update h ?_ ?_).andThen fun _ => ?_
  · exact fun _ => rfl
  · exact fun _ => rfl
  apply (quiet_noteUse h _).andThen
  intro _
  apply (quiet_unlock h).andThen
  intro _
  refine (quiet_emit h ?_).andThen fun _ => ?_
  · exact fun m hm => by cases hm
  split
  · apply (follows_send d id ha _).bind
    exact fun _ _ _ => trivial
  · trivial

theorem follows_subscribe (since : Option Seq) :
    Sound a me v (subscribe id me since) := by
  refine (quiet_lookup _).option trivial fun h => ?_
  apply (quiet_lock h).andThen
  intro s
  have hlisten : Quiet (Inv a) Free me v (listen h) := .once fun _ _ _ hI _ _ => hI
  apply hlisten.andThen
  intro start
  apply (quiet_unlock h).andThen
  intro _
  exact injected_replay ha s since

theorem follows_inbound (h : Handle) (m : SessionMessage) :
    Sound a me v (inbound ed me h m) := by
  apply Follows.waitFor
  intro s V e hI hv hready _
  refine ⟨.mirror h, hI.setMirror me (hI.forwarders h (of_decide_eq_true hready)), ?_⟩
  apply (quiet_lock h).andThen
  intro s
  split
  · exact sound_release h trivial
  rename_i pos _
  refine (quiet_store _ _).except (fun _ => sound_release h trivial) fun _ => ?_
  have hinsert : Quiet (Inv a) Free me (.mirror h) (update h fun s => mirrorInsert s pos m) := by
    apply Quiet.once
    intro _ s V hI hv _
    -- nothing is asked of a mirror's log, only of what it surfaces
    have hremote := (hI.mirror me h hv).2
    dsimp only
    apply hI.modify
    · exact fun _ => rfl
    · intro hlocal
      rw [hremote] at hlocal
      cases hlocal
    · exact fun k hk => .inl hk
  apply hinsert.andThen
  intro _
  split
  · exact sound_release h trivial
  rename_i hres
  refine (quiet_emit h ?_).andThen fun _ => ?_
  · intro k hk
    cases hk
    exact injected_of_not (not_of_not_reserved ha (by simpa using hres))
  exact sound_release h trivial

end

def Claimed : Except SessionError MirrorClaim → View → Prop
  | .ok (.fresh h), w => w = .mirror h
  | _, _ => True

theorem follows_adoptClaim (h : Handle) :
    Follows (Inv a) Free me (fun c w => Claimed (.ok c) w) (adoptClaim h) v := by
  intro s V e hI hv _ _
  exact Follows.keep hv hI trivial

theorem follows_claimRemoteMirror (host : PeerId) (hostEpoch : UInt64) :
    Follows (Inv a) Free me Claimed (claimRemoteMirror id host hostEpoch) v := by
  apply (quiet_lookup _).andThen
  intro found
  cases found with
  | some h =>
    apply (follows_adoptClaim h).bind
    exact fun _ _ hclaim => hclaim
  | none =>
    refine (quiet_store _ _).except (fun _ => trivial) fun _ => ?_
    apply Follows.waitFor
    intro s V e hI hv _ _
    cases hs : s.sessions with
    | some h =>
      apply Follows.keep hv hI
      apply (follows_adoptClaim h).bind
      exact fun _ _ hclaim => hclaim
    | none =>
      have hnew := hI.insert { Session.new id host .Remote with hostEpoch := hostEpoch } rfl
      have hmirror := hnew.setMirror me (h := s.nextHandle) ⟨Nat.lt_succ_self _, by simp; rfl⟩
      exact ⟨_, hmirror.of_eq rfl rfl fun _ hh => hh, rfl⟩

theorem follows_driveSubscribe (h : Handle) :
    Follows (Inv a) Free me (fun _ _ => True) (driveSubscribe me h) (.mirror h) := by
  have hsubscribe : Quiet (Inv a) Free me (.mirror h) (subscribeInner h (some h)) :=
    quiet_subscribeInner h (some h) fun k hk => by rw [Option.some.inj hk]
  apply (quiet_lock h).andThen
  intro _
  apply (quiet_unlock h).andThen
  intro _
  apply Quiet.andThen (joinBlind_inv.joinSession h hsubscribe)
  intro result
  cases result with
  | none => exact (joinBlind_inv.finish h true).andThen fun _ => trivial
  | some err =>
    apply Quiet.andThen
    · apply (quiet_unpublish _).andThen
      intro _
      exact (quiet_store _ _).andThen fun _ => rfl
    · exact fun _ => (joinBlind_inv.finish h false).andThen fun _ => trivial

theorem follows_join (ticket : SessionTicket) (peer : PeerInfo) :
    Sound a me v (join d id me ticket peer) := by
  have hmaterialise : Follows (Inv a) Free me (fun _ _ => True)
      (materialiseRemoteSession d id me ticket) v := by
    unfold materialiseRemoteSession
    split
    · trivial
    apply (follows_claimRemoteMirror id _ _).bind
    rintro (e | ⟨h | ⟨h, _ | outcome⟩⟩) w hw
    · trivial
    · rw [hw]
      exact follows_driveSubscribe h
    · trivial
    · intro s V e hI hv _ _
      exact Follows.keep hv hI trivial
  refine (quiet_lookup _).option ?_ fun h => follows_joinMember h peer
  dsimp only
  split
  · trivial
  apply hmaterialise.bind
  rintro (e | h) w _
  · trivial
  · exact follows_joinMember h peer

theorem follows_hostResume (call : HostCall) (h : Handle) :
    Sound a me v (hostResume d id me call h) := by
  apply (quiet_lock h).andThen
  intro s
  split
  · exact sound_release h trivial
  refine (quiet_store _ _).except (fun _ => sound_release h trivial) fun _ => ?_
  refine (quiet_store _ _).except (fun _ => sound_release h trivial) fun _ => ?_
  refine (quiet_update h ?_ ?_).andThen fun _ => ?_
  · exact fun _ => rfl
  · exact fun _ => rfl
  apply (quiet_unlock h).andThen
  intro _
  refine (quiet_subscribeInner h none ?_).andThen fun _ => trivial
  exact fun k hk => by cases hk

theorem follows_host (call : HostCall) (passes : ℕ) :
    Sound a me v (host d id me call passes) := by
  have hcreate : Sound a me v (hostCreate d id call) := by
    refine (quiet_store _ _).except (fun _ => joinBlind_inv.releaseMap.andThen fun _ => trivial)
      fun floor => ?_
    refine (quiet_store _ _).except (fun _ => joinBlind_inv.releaseMap.andThen fun _ => trivial)
      fun _ => ?_
    have hinsert : Quiet (Inv a) Free me v (insert (createdSession id call floor)) := by
      apply Quiet.once
      intro _ s V hI _ _
      exact (hI.insert (createdSession id call floor) rfl).of_eq rfl rfl fun _ hh => hh
    apply hinsert.andThen
    intro h
    refine (quiet_subscribeInner h none ?_).andThen fun _ => trivial
    exact fun k hk => by cases hk
  induction passes with
  | zero =>
    intro s V e hI hv hready _
    cases hready
  | succ passes ih =>
    unfold host hostPass
    simp only [Fiber.bind_eq]
    refine (quiet_lookup _).option ?_ fun h => follows_hostResume d id call h
    exact (joinBlind_inv.writeMap me).option hcreate
      fun h => joinBlind_inv.releaseMap.andThen fun _ => ih

theorem follows_emitSynthetic (sender : PeerId) (what action : String) (payload : Bytes) :
    Sound a me v (emitSynthetic id me sender what action payload) := by
  refine (quiet_lookup _).option trivial fun h => ?_
  apply (quiet_lock h).andThen
  intro s
  apply (quiet_unlock h).andThen
  intro _
  split
  · trivial
  refine (quiet_emit h ?_).andThen fun _ => trivial
  intro m hm
  cases hm
  exact fun _ _ => rfl

theorem follows_emitWorkspaceTicket (sender : PeerId) (envelope : Bytes) :
    Sound a me v (emitWorkspaceTicket id me sender envelope) := by
  refine (quiet_lookup _).option trivial fun h => ?_
  apply (quiet_lock h).andThen
  intro s
  split
  · exact sound_release h trivial
  split
  · exact sound_release h trivial
  refine (quiet_store _ _).except (fun _ => sound_release h trivial) fun _ => ?_
  refine (quiet_update h ?_ ?_).andThen fun _ => ?_
  · exact fun _ => rfl
  · exact fun _ => rfl
  apply (quiet_unlock h).andThen
  intro _
  refine (quiet_emit h ?_).andThen fun _ => trivial
  intro m hm
  cases hm
  exact fun _ _ => rfl

theorem follows_body (ha : reservedSystemAction a ≠ none) (call : Call) :
    Sound a me v (Call.body d id me call) := by
  cases call with
  | host call passes => exact follows_host d id call passes
  | join ticket peer => exact follows_join d id ticket peer
  | leave peer => exact follows_leave id peer
  | hostClosedSession => exact follows_hostClosedSession
  | advanceHostEpochWatermark epoch => exact follows_advanceHostEpochWatermark epoch
  | ensureMember peer claim => exact follows_ensureMember d id ha peer claim
  | send draft => exact follows_send d id ha draft
  | subscribe since => exact follows_subscribe id ha since
  | inbound mirror m => exact follows_inbound ha mirror m
  | deliver sender frame =>
    cases frame with
    | workspaceTicket envelope => exact follows_emitWorkspaceTicket id sender envelope
    | _ => exact follows_emitSynthetic id sender _ _ _

end Calls

end Artel.Reserved
