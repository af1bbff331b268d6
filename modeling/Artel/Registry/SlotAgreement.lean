import Artel.Registry.SlotInvariant

namespace Artel.SlotAgreement

open Registry

section Calls

variable {me : ℕ}

theorem follows_subscribeInner (h : Handle) (feeds : Option Handle) :
    Follows Inv Orderly me (fun r w => r = none ∧ w = .idle) (subscribeInner h feeds)
      (.subscribing h feeds) := by
  apply Follows.once
  intro s V e hI hv hC
  cases hslot : s.slot with
  | some slot =>
    have htaken := hI.reserve_taken hv (by simp [hslot])
    rw [hslot] at htaken
    exact ⟨.idle, htaken, rfl, rfl⟩
  | none =>
    refine ⟨_, hI.reserve_free hv hC, ?_⟩
    apply Follows.once
    intro s V e hI hv hC
    apply Follows.keep hv hI
    have herr : e.subscribeError = none := hC
    simp only [herr]
    apply (coarse_inv.spawn feeds).andThen
    intro _
    apply Follows.once
    intro s V e hI hv _
    refine ⟨.idle, ?_, rfl, rfl⟩
    split
    · rename_i hslot
      exact hI.finalize_won hv hslot
    · rename_i hslot
      exact coarse_inv.abort feeds (hI.finalize_lost hv hslot)

theorem follows_lookup {β : Type} {R : β → View → Prop} {l : Label} {k : Option Handle → Async β}
    (hnone : Follows Inv Orderly me R (k none) .idle)
    (hsome : ∀ h, Follows Inv Orderly me R (k (some h)) (.found h (some h))) :
    Follows Inv Orderly me R ((lookupAs l).bind k) .idle := by
  apply Follows.waitFor
  intro s V e hI hv _ _
  cases hs : s.sessions with
  | none => exact Follows.keep hv hI hnone
  | some h =>
    refine ⟨.found h (some h), hI.setView (by rw [hv]; trivial) ?_, hsome h⟩
    exact ⟨hI.bounded h hs, fun _ => rfl⟩

theorem follows_unpublish {h : Handle} {feeds : Option Handle} {β : Type} {R : β → View → Prop}
    {k : Unit → Async β} (hk : Follows Inv Orderly me R (k ()) .closing) :
    Follows Inv Orderly me R ((unpublishAs (.unpublish h)).bind k) (.found h feeds) := by
  intro s V e hI hv _ _
  exact ⟨.closing, hI.unpublish (by rw [hv]; trivial), hk⟩

theorem follows_forget {h : Handle} {β : Type} {R : β → View → Prop} {k : Unit → Async β}
    (hk : Follows Inv Orderly me R (k ()) .idle) :
    Follows Inv Orderly me R ((forget h).bind k) .closing := by
  apply Follows.once
  intro s V e hI hv hC
  have hfree := hI.forget (i := me) hC
  refine ⟨.idle, ?_, hk⟩
  split
  · exact coarse_inv.abort _ hfree
  · exact hfree

variable {ed : Ed25519} (d : Daemon ed) (id : SessionId)

theorem follows_leave (peer : PeerId) :
    Follows Inv Orderly me (fun _ w => w.settled) (leave id me peer) .idle := by
  apply follows_lookup
  · trivial
  intro h
  apply (coarse_inv.lock h).andThen
  intro s
  split
  · exact (coarse_inv.unlock h).andThen fun _ => trivial
  refine (coarse_inv.store _ _).except (fun _ => (coarse_inv.unlock h).andThen fun _ => trivial)
    fun _ => ?_
  refine (coarse_inv.update h ?_).andThen fun _ => ?_
  · exact fun _ => rfl
  apply (coarse_inv.emit h _).andThen
  intro _
  apply (coarse_inv.unlock h).andThen
  intro _
  split
  · apply follows_unpublish
    apply follows_forget
    trivial
  · trivial

theorem follows_hostClosedSession :
    Follows Inv Orderly me (fun _ w => w.settled) (hostClosedSession me) .idle := by
  apply follows_lookup
  · trivial
  intro h
  apply (coarse_inv.lock h).andThen
  intro s
  split
  · exact (coarse_inv.unlock h).andThen fun _ => trivial
  refine (coarse_inv.store _ _).except (fun _ => (coarse_inv.unlock h).andThen fun _ => trivial)
    fun _ => ?_
  apply (coarse_inv.unlock h).andThen
  intro _
  apply follows_unpublish
  apply (coarse_inv.emit h _).andThen
  intro _
  apply follows_forget
  trivial

theorem follows_driveSubscribe (h : Handle) :
    Follows Inv Orderly me (fun _ w => w.settled) (driveSubscribe me h)
      (.subscribing h (some h)) := by
  apply (coarse_inv.lock h).andThen
  intro _
  apply (coarse_inv.unlock h).andThen
  intro _
  apply (joinBlind_inv.joinSession h (follows_subscribeInner h (some h))).bind
  rintro r w ⟨rfl, rfl⟩
  exact (joinBlind_inv.finish h true).andThen fun _ => trivial

def Claimed : Except SessionError MirrorClaim → View → Prop
  | .ok (.fresh h), w => w = .subscribing h (some h)
  | _, w => w.settled

theorem follows_adoptClaim (h : Handle) {v : View} (hv : v.settled) :
    Follows Inv Orderly me (fun a w => Claimed (.ok a) w) (adoptClaim h) v := by
  intro s V e hI hv' _ _
  exact Follows.keep hv' hI hv

theorem follows_claimRemoteMirror (host : PeerId) (hostEpoch : UInt64) :
    Follows Inv Orderly me Claimed (claimRemoteMirror id host hostEpoch) .idle := by
  apply follows_lookup
  · refine (coarse_inv.store _ _).except (fun _ => trivial) fun _ => ?_
    apply Follows.waitFor
    intro s V e hI hv _ hC
    cases hs : s.sessions with
    | some h =>
      apply Follows.keep hv hI
      refine (follows_adoptClaim h ?_).bind ?_
      · trivial
      · exact fun _ _ hclaim => hclaim
    | none =>
      have hnew := hI.insert (i := me) { Session.new id host .Remote with hostEpoch := hostEpoch }
        (some s.nextHandle) (hC hs) fun _ => rfl
      refine ⟨_, hnew.of_same ⟨rfl, rfl, rfl, rfl, fun _ => rfl⟩, ?_⟩
      rfl
  · intro h
    refine (follows_adoptClaim h ?_).bind ?_
    · trivial
    · exact fun _ _ hclaim => hclaim

theorem follows_materialiseRemoteSession (ticket : SessionTicket) :
    Follows Inv Orderly me (fun _ w => w.settled) (materialiseRemoteSession d id me ticket)
      .idle := by
  unfold materialiseRemoteSession
  split
  · trivial
  apply (follows_claimRemoteMirror id _ _).bind
  rintro (e | ⟨h | ⟨h, _ | outcome⟩⟩) w hw
  · exact hw
  · rw [hw]
    exact follows_driveSubscribe h
  · exact hw
  · intro s V e hI hv _ _
    exact Follows.keep hv hI hw

theorem follows_join (ticket : SessionTicket) (peer : PeerInfo) :
    Follows Inv Orderly me (fun _ w => w.settled) (join d id me ticket peer) .idle := by
  have hmember : ∀ h v, v.settled →
      Follows Inv Orderly me (fun _ w => w.settled) (joinMember me h peer) v := by
    intro h v hv
    apply (coarse_inv.joinMember h peer).mono
    rintro a w ⟨rfl, -⟩
    exact hv
  apply follows_lookup
  · dsimp only
    split
    · trivial
    · apply (follows_materialiseRemoteSession d id ticket).bind
      rintro (e | h) w hw
      · exact hw
      · exact hmember h w hw
  · exact fun h => hmember h _ trivial

theorem follows_hostResume (call : HostCall) (h : Handle) :
    Follows Inv Orderly me (fun _ w => w.settled) (hostResume d id me call h)
      (.found h (some h)) := by
  apply Follows.waitFor
  intro s V e hI hv _ _
  have hlocked := coarse_inv.modify s V h (fun c => { c with holder := some me }) hI fun _ => rfl
  split
  · apply Follows.keep hv hlocked
    exact (coarse_inv.unlock h).andThen fun _ => trivial
  rename_i hlocal
  have hknows := hlocked.knows me
  rw [hv] at hknows
  -- a session that is resumed is not a mirror, so its slot need not feed it
  have hfound : Knows (s.modify h fun c => { c with holder := some me }) (.found h none) := by
    refine ⟨hknows.1, fun hremote => ?_⟩
    rw [World.modify_cells_self] at hremote
    exact absurd (.inr (by rw [hremote]; decide)) hlocal
  refine ⟨.found h none, hlocked.setView (by rw [hv]; trivial) hfound, ?_⟩
  refine (coarse_inv.store _ _).except (fun _ => (coarse_inv.unlock h).andThen fun _ => trivial)
    fun _ => ?_
  refine (coarse_inv.store _ _).except (fun _ => (coarse_inv.unlock h).andThen fun _ => trivial)
    fun _ => ?_
  refine (coarse_inv.update h ?_).andThen fun _ => ?_
  · exact fun _ => rfl
  apply Follows.once
  intro s V e hI hv _
  have hunlocked := coarse_inv.modify s V h (fun c => { c with holder := none }) hI
    fun _ => rfl
  have hknows := hunlocked.knows me
  rw [hv] at hknows
  refine ⟨.subscribing h none, hunlocked.setView (by rw [hv]; trivial) hknows, ?_⟩
  apply (follows_subscribeInner h none).bind
  rintro r w ⟨-, rfl⟩
  trivial

theorem follows_hostCreate (call : HostCall) :
    Follows Inv Orderly me (fun _ w => w.settled) (hostCreate d id call) .idle := by
  refine (coarse_inv.store _ _).except (fun _ => joinBlind_inv.releaseMap.andThen fun _ => trivial)
    fun floor => ?_
  refine (coarse_inv.store _ _).except (fun _ => joinBlind_inv.releaseMap.andThen fun _ => trivial)
    fun _ => ?_
  apply Follows.once
  intro s V e hI hv hC
  have hnew := hI.insert (i := me) (createdSession id call floor) none hC
    fun hremote => by cases hremote
  refine ⟨_, hnew.of_same ⟨rfl, rfl, rfl, rfl, fun _ => rfl⟩, ?_⟩
  apply (follows_subscribeInner _ none).bind
  rintro r w ⟨-, rfl⟩
  trivial

theorem follows_host (call : HostCall) (passes : ℕ) :
    Follows Inv Orderly me (fun _ w => w.settled) (host d id me call passes) .idle := by
  induction passes with
  | zero =>
    intro s V e hI hv hready _
    cases hready
  | succ passes ih =>
    apply follows_lookup
    · exact (joinBlind_inv.writeMap me).option (follows_hostCreate d id call)
        fun h => joinBlind_inv.releaseMap.andThen fun _ => ih
    · exact follows_hostResume d id call

end Calls

def IsLifecycle : Call → Prop
  | .host _ _ => True
  | .join _ _ => True
  | .leave _ => True
  | .hostClosedSession => True
  | _ => False

instance : DecidablePred IsLifecycle
  | .host _ _ | .join _ _ | .leave _ | .hostClosedSession => isTrue trivial
  | .advanceHostEpochWatermark _ | .ensureMember _ _ | .send _ | .subscribe _ | .inbound _ _ |
    .deliver _ _ => isFalse not_false

instance (l : Label) (e : Env) (s : World) : Decidable (Orderly l e s) := by
  unfold Orderly
  split <;> infer_instance

/-- A live slot exactly for a session in the map, feeding that very mirror. -/
structure Agrees (s : World) : Prop where
  live_iff : (∃ feeds, s.slot = some (.live feeds)) ↔ s.sessions.isSome
  feeds : ∀ h, s.sessions = some h → (s.cells h).session.kind = .Remote →
    s.slot = some (.live (some h))

theorem inv_empty (blank : Session) (disk : Store.Disk) :
    Inv (.empty blank disk) fun _ => .idle := by
  constructor <;> simp [World.empty, Knows]

theorem Inv.agrees {s : World} {V : ℕ → View} (hI : Inv s V) (hV : ∀ i, (V i).settled) :
    Agrees s := by
  have hlive : ∀ h, s.sessions = some h → ∃ feeds, s.slot = some (.live feeds) := by
    intro h hs
    cases hslot : s.slot with
    | none =>
      obtain ⟨i, feeds, hi⟩ := hI.unserved h hs hslot
      have hsettled := hV i
      rw [hi] at hsettled
      cases hsettled
    | some slot =>
      cases slot with
      | live feeds => exact ⟨feeds, rfl⟩
      | reserved g =>
        obtain ⟨i, k, feeds, hi⟩ := hI.owner g hslot
        have hsettled := hV i
        rw [hi] at hsettled
        cases hsettled
  refine ⟨⟨?_, ?_⟩, ?_⟩
  · rintro ⟨feeds, hslot⟩
    by_contra hnone
    have hs : s.sessions = none := by simpa using hnone
    obtain ⟨i, hi⟩ := hI.closing hs (by rw [hslot]; simp)
    have hsettled := hV i
    rw [hi] at hsettled
    cases hsettled
  · intro hsome
    obtain ⟨h, hs⟩ := Option.isSome_iff_exists.mp hsome
    exact hlive h hs
  · intro h hs hremote
    obtain ⟨feeds, hslot⟩ := hlive h hs
    rw [hslot, hI.live feeds hslot h hs hremote]

/-- Whenever an orderly history has no call in flight, bridge and map agree. -/
theorem quiescent_agrees {ed : Ed25519} (d : Daemon ed) (id : SessionId) (blank : Session)
    (disk : Store.Disk) (ms : List (Move Call Env))
    (hms : CallsMeet d id (.empty blank disk) IsLifecycle Orderly ms)
    (hq : (runCalls d id (.empty blank disk) ms).Quiescent) :
    Agrees (runCalls d id (.empty blank disk) ms).world := by
  have hbody : ∀ i o, IsLifecycle o →
      Follows Inv Orderly i (fun _ w => w.settled) (Call.body d id i o) .idle := by
    intro i o ho
    cases o with
    | host call passes => exact follows_host d id call passes
    | join ticket peer => exact follows_join d id ticket peer
    | leave peer => exact follows_leave id peer
    | hostClosedSession => exact follows_hostClosedSession
    | _ => cases ho
  have htracked := Pool.tracked_run hbody (Pool.tracked_nil (inv_empty blank disk)) hms
  obtain ⟨V, hI, -, hviews⟩ := htracked.of_quiescent hq
  apply hI.agrees
  intro i
  rcases hviews i with hi | ⟨o, a, hi⟩
  · rw [hi]
    trivial
  · exact hi

section Sample

open Sample

/-- Host, leave, host again, one after the other. -/
def orderlyRehost : List (Move Call Env) :=
  [.call (.host call 1), .call (.leave (peer 0)), .call (.host call 1)] ++
    steps 0 9 calm ++ steps 1 8 calm ++ steps 2 9 calm

theorem quiescent_agrees_rehost :
    Agrees (runCalls daemon session (.empty blank noDisk) orderlyRehost).world :=
  quiescent_agrees daemon session blank noDisk orderlyRehost (by decide +kernel)
    (by decide +kernel)

/-- The second host call finds the slot taken, and then loses it. -/
def rehostDuringLeave : List (Move Call Env) :=
  [.call (.host call 1), .call (.leave (peer 0)), .call (.host call 1)] ++
    steps 0 9 calm ++ steps 1 7 calm ++ steps 2 6 calm ++ steps 1 1 calm

theorem rehost_without_slot :
    (runCalls daemon session (.empty blank noDisk) rehostDuringLeave).Quiescent ∧
      ¬ Agrees (runCalls daemon session (.empty blank noDisk) rehostDuringLeave).world := by
  have hend : (runCalls daemon session (.empty blank noDisk) rehostDuringLeave).Quiescent ∧
      (runCalls daemon session (.empty blank noDisk) rehostDuringLeave).world.sessions = some 1 ∧
      (runCalls daemon session (.empty blank noDisk) rehostDuringLeave).world.slot = none := by
    decide +kernel
  obtain ⟨hq, hs, hslot⟩ := hend
  refine ⟨hq, fun h => ?_⟩
  obtain ⟨feeds, hlive⟩ := h.live_iff.mpr (by rw [hs]; rfl)
  cases hlive

end Sample

end Artel.SlotAgreement
