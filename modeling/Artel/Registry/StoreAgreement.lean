import Artel.Registry.StoreActions

namespace Artel.StoreAgreement

open Registry Store

section Calls

variable {me : ℕ} {v : View} {ed : Ed25519} (d : Daemon ed) (id : SessionId)

abbrev Settles {α : Type} (t : Async α) (me : ℕ) (v : View) : Prop :=
  Follows Inv Orderly me (fun _ w => w.settled) t v

variable (h : Handle)

theorem settles_sendLocal (draft : Draft) :
    Settles (sendLocal d me h draft) me (.found h) := by
  apply follows_lock
  intro session
  apply quiet_clock.andThen
  intro nowMs
  split
  · exact follows_unlock rfl trivial
  rename_i m _
  apply follows_write (writes_append session.image m)
  · apply follows_update
    apply follows_unlock (image_commitSend session m).symm
    apply (quiet_emit h _).andThen
    intro _
    split
    · trivial
    · exact (joinBlind_inv.publish m).andThen fun _ => trivial
  · exact fun _ => follows_unlock rfl trivial

theorem settles_send (hv : v.settled) (draft : Draft) : Settles (send d id me draft) me v := by
  unfold send
  split
  · exact hv
  apply follows_lookup hv
  · exact hv
  intro h
  apply follows_lock
  intro session
  apply follows_unlock rfl
  split
  · trivial
  split
  · apply Follows.once
    intro s V e hI hvi _
    apply Follows.keep hvi hI
    split <;> trivial
  · exact settles_sendLocal d h draft

theorem settles_subscribe (since : Option Seq) : Settles (subscribe id me since) me .idle := by
  apply follows_lookup (v := .idle) trivial
  · trivial
  intro h
  apply follows_lock
  intro session
  apply (quiet_listen h).andThen
  intro start
  exact follows_unlock rfl trivial

theorem settles_inbound (m : SessionMessage) :
    Settles (inbound ed me h m) me .idle := by
  apply Follows.waitFor
  intro s V e hI hv hready _
  have hlt : h < s.nextHandle := hI.forwarders h (of_decide_eq_true hready)
  refine ⟨.found h, hI.found (by rw [hv]; trivial) hlt, ?_⟩
  apply follows_lock
  intro session
  split
  · exact follows_unlock rfl trivial
  rename_i pos _
  apply follows_write (writes_append session.image m)
  · apply follows_update
    split
    · exact follows_unlock (image_mirrorInsert session pos m).symm trivial
    · apply (quiet_emit h _).andThen
      intro _
      exact follows_unlock (image_mirrorInsert session pos m).symm trivial
  · exact fun _ => follows_unlock rfl trivial

theorem settles_leave (peer : PeerId) : Settles (leave id me peer) me .idle := by
  apply follows_lookup (v := .idle) trivial
  · trivial
  intro h
  apply follows_lock
  intro session
  split
  · exact follows_unlock rfl trivial
  by_cases hdrop : peer = session.host ∨ session.kind = .Remote
  · simp only [hdrop, ↓reduceIte]
    apply follows_delete
    apply follows_update
    apply (quiet_emit h _).andThen
    intro _
    apply follows_unlock_deleted
    apply follows_unpublish
    exact (slotBlind_inv.forget h).andThen fun _ => trivial
  · simp only [hdrop, ↓reduceIte]
    apply follows_write (writes_removeMember session.image session.image peer)
    · apply follows_update
      apply (quiet_emit h _).andThen
      intro _
      exact follows_unlock rfl trivial
    · exact fun _ => follows_unlock rfl trivial

theorem settles_hostClosedSession : Settles (hostClosedSession me) me .idle := by
  apply follows_lookup (v := .idle) trivial
  · trivial
  intro h
  apply follows_lock
  intro session
  split
  · exact follows_unlock rfl trivial
  apply follows_delete
  apply follows_unlock_deleted
  apply follows_unpublish
  apply (quiet_emit h _).andThen
  intro _
  exact (slotBlind_inv.forget h).andThen fun _ => trivial

theorem settles_advanceHostEpochWatermark (hostEpoch : UInt64) :
    Settles (advanceHostEpochWatermark me hostEpoch) me .idle := by
  apply follows_lookup (v := .idle) trivial
  · trivial
  intro h
  apply follows_lock
  intro session
  split
  · exact follows_unlock rfl trivial
  · apply follows_write (writes_bumpHostEpoch session.image session.image hostEpoch)
    · apply follows_update
      exact follows_unlock rfl trivial
    · exact fun _ => follows_unlock rfl trivial

theorem follows_noteUse {h : Handle} {session : Session} (tickets : Option (List TicketEntry)) :
    Follows Inv Orderly me (fun _ w => ∃ session', w = .locked h session' session'.image false)
      (noteUse h tickets) (.locked h session session.image false) := by
  unfold noteUse
  cases tickets with
  | none => exact ⟨session, rfl⟩
  | some tickets =>
    apply follows_update
    -- a write to the ledger does not fail here, so either way the store has the note
    apply follows_write (writes_putTickets _ { session with tickets := tickets }.image tickets)
    · exact ⟨{ session with tickets := tickets }, rfl⟩
    · exact fun _ => ⟨{ session with tickets := tickets }, rfl⟩

theorem settles_ensureMember (peer : PeerInfo) (claim : Option CapClaim) :
    Settles (ensureMember d id me peer claim) me .idle := by
  apply quiet_clock.andThen
  intro nowMs
  split
  · trivial
  apply follows_lookup (v := .idle) trivial
  · trivial
  intro h
  apply follows_lock
  intro session
  split
  · exact follows_unlock rfl trivial
  split
  · exact follows_unlock rfl trivial
  apply follows_write (writes_addMember session.image session.image peer.id)
  · apply follows_update
    apply (follows_noteUse _).bind
    rintro _ _ ⟨session', rfl⟩
    apply follows_unlock rfl
    apply (quiet_emit h _).andThen
    intro _
    split
    · apply Follows.bind (settles_send d id (v := .found h) trivial _)
      exact fun _ w hw => hw
    · trivial
  · exact fun _ => follows_unlock rfl trivial

theorem settles_joinMember (peer : PeerInfo) :
    Settles (joinMember me h peer) me (.found h) := by
  unfold joinMember
  simp only [Fiber.bind_eq, Fiber.pure_eq]
  apply follows_lock
  intro session
  split
  · exact follows_unlock rfl trivial
  apply follows_write (writes_addMember session.image session.image peer.id)
  · apply follows_update
    apply (quiet_emit h _).andThen
    intro _
    exact follows_unlock rfl trivial
  · exact fun _ => follows_unlock rfl trivial

def Claimed : Except SessionError MirrorClaim → View → Prop
  | .ok (.fresh h), w => w = .found h
  | .ok (.adopted h _), w => w = .found h
  | .error _, w => w.settled

theorem follows_adoptClaim :
    Follows Inv Orderly me (fun claim w => Claimed (.ok claim) w) (adoptClaim h) (.found h) := by
  intro s V e hI hv _ _
  exact Follows.keep hv hI rfl

theorem follows_claimSlot {session : Session} {β : Type} {R : β → View → Prop}
    {k : Handle ⊕ Handle → Async β}
    (hk : ∀ h, Follows Inv Orderly me R (k (.inr h)) (.found h)) :
    Follows Inv Orderly me R ((claimSlot session).bind k) (.creating session) := by
  apply Follows.waitFor
  intro s V e hI hv _ _
  have hknows := hI.knows me
  rw [hv] at hknows
  rw [hknows.1]
  have hinsert := hI.insert hv
  exact ⟨_, hinsert.of_same (hinsert.same rfl rfl rfl rfl fun _ hh => hh), hk _⟩

theorem follows_claimRemoteMirror (host : PeerId) (hostEpoch : UInt64) :
    Follows Inv Orderly me Claimed (claimRemoteMirror id host hostEpoch) .idle := by
  apply follows_lookup (v := .idle) trivial
  · apply follows_create (v := .idle) trivial rfl rfl
    apply follows_claimSlot
    exact fun _ => rfl
  · intro h
    apply (follows_adoptClaim h).bind
    exact fun _ _ hclaim => hclaim

theorem follows_rollbackRemoteMirror :
    Follows Inv Orderly me (fun _ w => w = .idle) (rollbackRemoteMirror h) (.found h) := by
  apply Follows.waitFor
  intro s V e hI hv _ hC
  obtain ⟨hs, hdir⟩ := hC
  refine ⟨.rolling, hI.rollback hv hs hdir, ?_⟩
  apply Follows.once
  intro s V e hI hv hC
  have hfault : e.fault = none := hC
  rw [hfault]
  exact ⟨.idle, hI.rollbackDelete hv rfl, rfl⟩

def Held : Except SessionError Handle → View → Prop
  | .ok h, w => w = .found h
  | .error _, w => w.settled

theorem follows_driveSubscribe :
    Follows Inv Orderly me Held (driveSubscribe me h) (.found h) := by
  apply follows_lock
  intro session
  apply follows_unlock rfl
  have hsubscribe : Quiet Inv Orderly me (.found h) (subscribeInner h (some h)) :=
    quiet_subscribeInner h (some h) fun k hk => by rw [Option.some.inj hk]
  apply Quiet.andThen (joinBlind_inv.joinSession h hsubscribe)
  rintro (_ | err)
  · exact (joinBlind_inv.finish h true).andThen fun _ => rfl
  · apply (follows_rollbackRemoteMirror h).bind
    rintro _ _ rfl
    exact (joinBlind_inv.finish h false).andThen fun _ => trivial

theorem follows_materialiseRemoteSession (ticket : SessionTicket) :
    Follows Inv Orderly me Held (materialiseRemoteSession d id me ticket) .idle := by
  unfold materialiseRemoteSession
  split
  · trivial
  apply (follows_claimRemoteMirror id _ _).bind
  intro claim w hclaim
  rcases claim with err | ⟨h⟩ | ⟨h, _ | outcome⟩
  · exact hclaim
  · cases hclaim
    exact follows_driveSubscribe h
  · exact hclaim
  cases hclaim
  intro s V e hI hv _ _
  apply Follows.keep hv hI
  dsimp only
  split
  · rfl
  · trivial

theorem settles_join (ticket : SessionTicket) (peer : PeerInfo) :
    Settles (join d id me ticket peer) me .idle := by
  apply follows_lookup (v := .idle) trivial
  · dsimp only
    split
    · trivial
    apply (follows_materialiseRemoteSession d id ticket).bind
    rintro (err | h) w hheld
    · exact hheld
    · cases hheld
      exact settles_joinMember h peer
  · exact fun h => settles_joinMember h peer

theorem settles_hostResume (call : HostCall) (h : Handle) :
    Settles (hostResume d id me call h) me (.found h) := by
  apply follows_lock
  intro session
  split
  · exact follows_unlock rfl trivial
  apply follows_write (writes_putTickets session.image session.image _)
  · apply follows_write (writes_bumpHostEpoch _ session.image _)
    · apply follows_update
      apply follows_unlock rfl
      exact (quiet_subscribeInner h none nofun).andThen fun _ => trivial
    · exact fun _ => follows_unlock rfl trivial
  · exact fun _ => follows_unlock rfl trivial

theorem settles_hostCreate (call : HostCall) : Settles (hostCreate d id call) me .idle := by
  apply quiet_floor.andThen
  rintro (err | floor)
  · exact joinBlind_inv.releaseMap.andThen fun _ => trivial
  apply follows_create (v := .idle) trivial rfl rfl
  apply Follows.once
  intro s V e hI hv _
  have hinsert := hI.insert hv
  refine ⟨_, hinsert.of_same (hinsert.same rfl rfl rfl rfl fun _ hh => hh), ?_⟩
  exact (quiet_subscribeInner _ none nofun).andThen fun _ => trivial

theorem settles_host (call : HostCall) (passes : ℕ) :
    Settles (host d id me call passes) me .idle := by
  induction passes with
  | zero =>
    intro s V e _ _ hready
    cases hready
  | succ passes ih =>
    unfold host hostPass
    simp only [Fiber.bind_eq]
    apply follows_lookup (v := .idle) trivial
    · apply (joinBlind_inv.writeMap me).andThen
      rintro (_ | h)
      · exact settles_hostCreate d id call
      · exact joinBlind_inv.releaseMap.andThen fun _ => ih
    · exact fun h => settles_hostResume d id call h

theorem settles_emitSynthetic (sender : PeerId) (what action : String) (payload : Bytes) :
    Settles (emitSynthetic id me sender what action payload) me .idle := by
  apply follows_lookup (v := .idle) trivial
  · trivial
  intro h
  apply follows_lock
  intro session
  apply follows_unlock rfl
  split
  · trivial
  · exact (quiet_emit h _).andThen fun _ => trivial

theorem settles_emitWorkspaceTicket (sender : PeerId) (envelope : Bytes) :
    Settles (emitWorkspaceTicket id me sender envelope) me .idle := by
  apply follows_lookup (v := .idle) trivial
  · trivial
  intro h
  apply follows_lock
  intro session
  split
  · exact follows_unlock rfl trivial
  split
  · exact follows_unlock rfl trivial
  apply follows_write (writes_putWorkspaceTicket session.image envelope)
  · apply follows_update
    apply follows_unlock rfl
    exact (quiet_emit h _).andThen fun _ => trivial
  · exact fun _ => follows_unlock rfl trivial

theorem settles_body (o : Call) : Settles (Call.body d id me o) me .idle := by
  cases o with
  | host call passes => exact settles_host d id call passes
  | join ticket peer => exact settles_join d id ticket peer
  | leave peer => exact settles_leave id peer
  | hostClosedSession => exact settles_hostClosedSession
  | advanceHostEpochWatermark hostEpoch => exact settles_advanceHostEpochWatermark hostEpoch
  | ensureMember peer claim => exact settles_ensureMember d id peer claim
  | send draft => exact settles_send d id (v := .idle) trivial draft
  | subscribe since => exact settles_subscribe id since
  | inbound mirror m => exact settles_inbound mirror m
  | deliver sender frame =>
    cases frame with
    | upgrade payload | downgrade payload
    | rotate payload => exact settles_emitSynthetic id sender _ _ payload
    | workspaceTicket envelope => exact settles_emitWorkspaceTicket id sender envelope

end Calls

theorem inv_empty (blank : Session) {disk : Disk} (hdisk : disk.dir = none) :
    Inv (.empty blank disk) fun _ => .idle where
  knows _ := trivial
  published _ h := by cases h
  forwarders _ h := by cases h
  holders _ _ h := by cases h
  current _ _ h := by cases h
  missing _ h := by cases h
  orphan _ h := absurd hdisk h
  unique _ h := by cases h

/-- The store has a record exactly of the map's session, which a load gives back. -/
structure Agrees (ed : Ed25519) (id : SessionId) (s : World) : Prop where
  present : s.disk.dir.isSome ↔ s.sessions.isSome
  carries : ∀ h dir, s.sessions = some h → s.disk.dir = some dir →
    ∃ r, (loadOne ed id false dir).1 = .ok r ∧ Carries r (s.cells h).session

theorem Inv.agrees {s : World} {V : ℕ → View} (hI : Inv s V) (hV : ∀ i, (V i).settled)
    (ed : Ed25519) (id : SessionId) : Agrees ed id s := by
  have hlost : ∀ h, s.sessions = some h → s.disk.dir ≠ none := by
    intro h hs hdir
    obtain ⟨i, hi⟩ := hI.missing h hs hdir
    rw [(hV i).free.2.1] at hi
    cases hi
  have hextra : s.sessions = none → s.disk.dir = none := by
    intro hs
    by_contra hdir
    obtain ⟨i, hi⟩ := hI.orphan hs hdir
    exact (hV i).free.1 hi
  have hunlocked : ∀ h, (s.cells h).holder = none := by
    intro h
    cases hholder : (s.cells h).holder with
    | none => rfl
    | some i =>
      have hlocks := hI.holders h i hholder
      rw [(hV i).free.2.2] at hlocks
      cases hlocks
  constructor
  · cases hs : s.sessions with
    | none => simp [hextra hs]
    | some h => simpa [Option.isSome_iff_ne_none] using hlost h hs
  · intro h dir hs hdir
    exact carries_of_holds ed id (hI.current h dir hs hdir (hunlocked h))

/-- With no call in flight, store and registry agree. -/
theorem quiescent_stored {ed : Ed25519} (d : Daemon ed) (id : SessionId) (blank : Session)
    (disk : Disk) (hdisk : disk.dir = none) (ms : List (Move Call Env))
    (hms : CallsMeet d id (.empty blank disk) (fun _ => True) Orderly ms)
    (hq : (runCalls d id (.empty blank disk) ms).Quiescent) :
    Agrees ed id (runCalls d id (.empty blank disk) ms).world := by
  have htracked := Pool.tracked_run (Q := fun _ _ w => w.settled)
    (fun _ o _ => settles_body d id o) (Pool.tracked_nil (inv_empty blank hdisk)) hms
  obtain ⟨V, hI, -, hviews⟩ := htracked.of_quiescent hq
  apply hI.agrees
  intro i
  rcases hviews i with hi | ⟨o, a, hi⟩
  · rw [hi]
    trivial
  · exact hi

section Sample

open Sample

/-- A session is hosted, admits a member and takes a message, one call after the other. -/
def oneAfterAnother : List (Move Call Env) :=
  [.call (.host call 1), .call (.ensureMember (info 2) none), .call (.send (note [1]))] ++
    steps 0 9 calm ++ steps 1 20 calm ++ steps 2 10 calm

theorem quiescent_stored_oneAfterAnother :
    Agrees .checksum session (runCalls daemon session (.empty blank noDisk) oneAfterAnother).world :=
  quiescent_stored daemon session blank noDisk rfl oneAfterAnother (by decide +kernel)
    (by decide +kernel)

/-- Two joins find the id unknown; one finishes before the other writes its record. -/
def lateCreate : List (Move Call Env) :=
  [.call (.join remoteTicket (info 0)), .call (.join remoteTicket (info 2))] ++
    steps 1 2 calm ++ steps 0 20 calm ++ steps 1 20 calm

/-- Both joins return `Ok`, and the first member is in memory only. -/
theorem late_create_drops_member :
    (runCalls daemon session (.empty blank noDisk) lateCreate).Quiescent ∧
      (∀ i < 2, ((runCalls daemon session (.empty blank noDisk) lateCreate).result i).bind
        joinedMirror = some 0) ∧
      ¬ Agrees .checksum session
        (runCalls daemon session (.empty blank noDisk) lateCreate).world := by
  have hend : (runCalls daemon session (.empty blank noDisk) lateCreate).Quiescent ∧
      (∀ i < 2, ((runCalls daemon session (.empty blank noDisk) lateCreate).result i).bind
        joinedMirror = some 0) ∧
      (runCalls daemon session (.empty blank noDisk) lateCreate).world.sessions = some 0 ∧
      ∃ dir ∈ (runCalls daemon session (.empty blank noDisk) lateCreate).world.disk.dir,
        ∃ doc ∈ dir.metaJson, doc.members ≠ ((runCalls daemon session (.empty blank noDisk)
          lateCreate).world.cells 0).session.members := by
    decide +kernel
  obtain ⟨hq, hjoined, hs, dir, hdir, doc, hdoc, hne⟩ := hend
  refine ⟨hq, hjoined, fun h => ?_⟩
  obtain ⟨r, hload, hcarries⟩ := h.carries 0 dir hs hdir
  have hmembers := members_of_loadOne hload hdoc
  exact hne (hmembers.symm.trans hcarries.members)

end Sample

end Artel.StoreAgreement
