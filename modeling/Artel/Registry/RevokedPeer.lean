import Artel.Registry.Outstanding

namespace Artel.RevokedPeer

open Store Sequencer List

section Model

variable {ed : Ed25519} (d : Daemon ed)

/-- What does not undo a `Revoke`: neither an admission nor a client's grant. -/
def Undisturbed (host peer : PeerId) : Fact → Prop
  | .admitted q _ _ _ _ => q ≠ peer
  | .written _ => True
  | .committed m client _ =>
    client = true → actionOn host peer m ≠ some (.grant peer .readWrite)

instance (host peer : PeerId) : DecidablePred (Undisturbed host peer)
  | .admitted _ _ _ _ _ => inferInstanceAs (Decidable (_ ≠ _))
  | .written _ => .isTrue trivial
  | .committed _ _ _ => inferInstanceAs (Decidable (_ = _ → _ ≠ _))

/-- A host's `Revoke` of an admitted peer, with no grant outstanding. -/
def Opens (host peer : PeerId) (before : List Fact) : Fact → Prop
  | .committed m _ owed =>
    (∃ cap held stored owed, .admitted peer cap held stored owed ∈ before) ∧
      actionOn host peer m = some (.revoke peer) ∧ NoneOwed peer owed
  | _ => False

/-- The peer may not write, and nothing on its way changes that. -/
structure Revoked (peer : PeerId) (c : State) (after : List Fact) : Prop where
  caps : c.session.caps peer ≠ some .readWrite
  owed : NoneOwed peer c.trace.owed
  writing : ∀ w ∈ c.writing, w.grant ≠ some (peer, .readWrite)
  quiet : ∀ m client owed, .committed m client owed ∈ after → m.peer.id ≠ peer

structure Sound (peer : PeerId) (c : State) : Prop where
  isLocal : c.session.kind = .Local
  host_eq : c.session.host = d.peerId
  hostMember : c.session.host ∈ c.session.members
  strangers : ∀ q cap held stored owed, .admitted q cap held stored owed ∈ c.trace.facts →
    q ≠ d.peerId
  faithful : ∀ w ∈ c.writing, Faithful d c.session w
  revoked : ∀ after, Since (Opens d.peerId peer) (Undisturbed d.peerId peer) c.trace.facts after →
    Revoked peer c after

variable {d} {peer : PeerId} {c : State}

section

variable (h : Sound d peer c)
include h

theorem Sound.peer_ne {after : List Fact}
    (hsince : Since (Opens d.peerId peer) (Undisturbed d.peerId peer) c.trace.facts after) :
    peer ≠ d.peerId := by
  obtain ⟨before, f, heq, hopens, -⟩ := hsince
  cases f with
  | committed m client owed =>
    obtain ⟨⟨cap, held, stored, owed', hadm⟩, -⟩ := hopens
    refine h.strangers peer cap held stored owed' ?_
    rw [heq]
    exact mem_append_left _ hadm
  | _ => exact hopens.elim

theorem Sound.of_written {c' : State} (hsession : c'.session = c.session)
    (hfacts : c'.trace.facts = c.trace.facts ∨
      ∃ draft, c'.trace.facts = c.trace.facts ++ [.written draft])
    (howed : NoneOwed peer c.trace.owed → NoneOwed peer c'.trace.owed)
    (hfaithful : ∀ w ∈ c'.writing, Faithful d c.session w)
    (hwriting : NoneOwed peer c.trace.owed → (∀ w ∈ c.writing, w.grant ≠ some (peer, .readWrite)) →
      ∀ w ∈ c'.writing, w.grant ≠ some (peer, .readWrite)) : Sound d peer c' := by
  have hold : ∀ f, f ∈ c'.trace.facts → (∀ draft, f ≠ .written draft) → f ∈ c.trace.facts := by
    intro f hf hne
    obtain heq | ⟨draft, heq⟩ := hfacts
    · rwa [heq] at hf
    · rw [heq, mem_append, mem_singleton] at hf
      exact hf.resolve_right (hne draft)
  constructor
  · rw [hsession]
    exact h.isLocal
  · rw [hsession]
    exact h.host_eq
  · rw [hsession]
    exact h.hostMember
  · intro q cap held stored owed hadm
    exact h.strangers q cap held stored owed (hold _ hadm (by simp))
  · rw [hsession]
    exact hfaithful
  · intro after hsince
    obtain ⟨rest, hrest, hquiet⟩ : ∃ rest,
        Since (Opens d.peerId peer) (Undisturbed d.peerId peer) c.trace.facts rest ∧
          ∀ m client owed, .committed m client owed ∈ after → .committed m client owed ∈ rest := by
      obtain heq | ⟨draft, heq⟩ := hfacts
      · rw [heq] at hsince
        exact ⟨after, hsince, fun _ _ _ hm => hm⟩
      · rw [heq] at hsince
        obtain ⟨rest, rfl, hrest, -⟩ | ⟨-, hopens⟩ := since_append hsince
        · exact ⟨rest, hrest, by simp⟩
        · exact hopens.elim
    have hr := h.revoked rest hrest
    refine ⟨?_, howed hr.owed, hwriting hr.owed hr.writing, ?_⟩
    · rw [hsession]
      exact hr.caps
    · exact fun m client owed hm => hr.quiet m client owed (hquiet m client owed hm)

theorem Sound.commit {w : Writing} (hw : c.writing = some w) :
    Sound d peer { c with
      session := commitSend c.session w.message
      writing := none
      trace := c.trace.commit w.grant.isNone (some w.message) } := by
  have hf := h.faithful w hw
  constructor
  · exact h.isLocal
  · exact h.host_eq
  · exact h.hostMember
  · intro q cap held stored owed hadm
    apply h.strangers q cap held stored owed
    simpa [Trace.commit] using hadm
  · intro w hw
    cases hw
  · intro after hsince
    obtain ⟨rest, rfl, hrest, hkeeps⟩ | ⟨rfl, hadm, hrevoke, howed⟩ := since_append hsince
    · have hr := h.revoked rest hrest
      have hne := h.peer_ne hrest
      refine ⟨?_, hr.owed, by simp, ?_⟩
      · rw [commitSend_caps, h.host_eq]
        refine stepCaps_ne hne hr.caps fun hact => ?_
        cases hgrant : w.grant with
        | none => exact hkeeps (by rw [hgrant]; rfl) hact
        | some g =>
          exact hr.writing w hw (actionOn_grant hf hgrant hact)
      · intro m client owed hm
        rcases mem_append.mp hm with hm | hm
        · exact hr.quiet m client owed hm
        obtain ⟨rfl, -, -⟩ : m = w.message ∧ client = w.grant.isNone ∧ owed = c.trace.owed := by
          simpa using hm
        intro hauthor
        rw [hf.prepared.peer] at hauthor
        have hcan := caps_of_canWrite hf.prepared.canWrite
        rw [hauthor] at hcan
        exact hr.caps hcan
    · obtain ⟨cap, held, stored, owed, hadm⟩ := hadm
      have hne : peer ≠ d.peerId := h.strangers peer cap held stored owed hadm
      refine ⟨?_, howed, by simp, by simp⟩
      rw [commitSend_caps, h.host_eq, stepCaps_apply hne, hrevoke]
      simp [CapabilityAction.leaves]

theorem Sound.admission {q : PeerId} (hnew : q ∉ c.session.members) (i : ℕ)
    (cap : Capability) (held stored : Option Capability) (disk : Disk) :
    Sound d peer { c with
      disk := disk
      trace :=
        { facts := c.trace.facts ++ [.admitted q cap held stored c.trace.owed]
          owed := c.trace.owed ++ [⟨i, q, cap, .admitted⟩] } } := by
  constructor
  · exact h.isLocal
  · exact h.host_eq
  · exact h.hostMember
  · intro r cap' held' stored' owed' hadm
    rcases mem_append.mp hadm with hadm | hadm
    · exact h.strangers r cap' held' stored' owed' hadm
    · obtain ⟨rfl, -⟩ : r = q ∧ _ := by simpa using hadm
      intro hhost
      apply hnew
      rw [hhost, ← h.host_eq]
      exact h.hostMember
  · exact h.faithful
  · intro after hsince
    obtain ⟨rest, rfl, hrest, hkeeps⟩ | ⟨-, hopens⟩ := since_append hsince
    · have hr := h.revoked rest hrest
      refine ⟨hr.caps, ?_, hr.writing, ?_⟩
      · intro x hx hpeer
        rcases mem_append.mp hx with hx | hx
        · exact hr.owed x hx hpeer
        · obtain rfl := mem_singleton.mp hx
          exact absurd hpeer hkeeps
      · intro m client owed hm
        rcases mem_append.mp hm with hm | hm
        · exact hr.quiet m client owed hm
        · simp at hm
    · exact hopens.elim

theorem sound_step {id : SessionId} {A : Draft → Prop} {F : Disk → Disk → Prop} {c' : State}
    (hstep : Step d id A F c c') : Sound d peer c' := by
  cases hstep with
  | append hfree hprep hspeaks hok =>
    refine h.of_written rfl (write_facts _ _ _) (by rw [write_owed]; exact fun ho => ho) ?_ ?_
    · intro w hw
      obtain rfl := Option.some.inj hw
      exact faithful_of_prepareSend hprep hspeaks
    · intro howed _ w hw
      obtain rfl := Option.some.inj hw
      exact hspeaks.grant_ne howed
  | refused hfree hprep hspeaks herr =>
    exact h.of_written rfl (write_facts _ _ _) (by rw [write_owed]; exact fun ho => ho) h.faithful
      fun _ hw => hw
  | commit hw => exact h.commit hw
  | amend members tickets hfree hhost =>
    have hnone : ∀ w, w ∉ c.writing := by simp [hfree]
    exact
      { isLocal := h.isLocal
        host_eq := h.host_eq
        hostMember := hhost h.hostMember
        strangers := h.strangers
        faithful := fun w hw => absurd hw (hnone w)
        revoked := fun after hsince => { h.revoked after hsince with } }
  | storeMembers f
  | fail hfail => exact h.of_written rfl (.inl rfl) (fun ho => ho) h.faithful fun _ hw => hw
  | storeTickets tickets =>
    exact h.of_written rfl (.inl rfl) (fun ho => ho) h.faithful fun _ hw => hw
  | admission i q cap hfree hnew hok => exact h.admission hnew i cap _ _ _
  | advance i next =>
    exact h.of_written rfl (.inl rfl) (fun ho => ho.advance i next) h.faithful fun _ hw => hw

end

theorem sound_created {id : SessionId} {call : HostCall} (hpeer : call.peer = d.peerId)
    (floor : UInt64) (disk : Disk) :
    Sound d peer ⟨((created id call floor disk).cells 0).session, (created id call floor disk).disk,
      none, ⟨[], []⟩⟩ := by
  have hsession : ((created id call floor disk).cells 0).session = createdSession id call floor := rfl
  rw [hsession]
  refine ⟨rfl, hpeer, by simp [createdSession, Session.new], by simp, by simp, ?_⟩
  rintro after ⟨before, f, heq, -⟩
  simp at heq

/-- A revoked peer writes nothing until it is admitted or granted again. -/
theorem revoked_stays_revoked (id : SessionId) {call : HostCall} (hpeer : call.peer = d.peerId)
    (floor : UInt64) (disk : Disk) (blank : Session) (hs : List HostedEvent)
    (hperm : Permitted d id blank (fun _ => True) (fun _ _ => True) (fun _ _ => False)
      (created id call floor disk) hs) (before after : List Fact) (m : SessionMessage)
    (client : Bool) (owed : List Owed)
    (hfacts : (trace d id blank (created id call floor disk) hs).facts =
      before ++ .committed m client owed :: after)
    (hadmitted : ∃ cap held stored owed, .admitted peer cap held stored owed ∈ before)
    (hrevoke : actionOn d.peerId peer m = some (.revoke peer))
    (hnone : NoneOwed peer owed) (hafter : ∀ f ∈ after, Undisturbed d.peerId peer f) :
    ((runHosted d id blank (created id call floor disk) hs).world.cells 0).session.caps peer ≠
        some .readWrite ∧
      ∀ m client owed, .committed m client owed ∈ after → m.peer.id ≠ peer := by
  have hclosed : Closed d id (fun _ => True) (fun _ _ => True) (Sound d peer) :=
    ⟨fun c hc => hc.isLocal, fun c c' hc hstep => sound_step hc hstep⟩
  obtain ⟨-, w, hw⟩ := of_history hclosed (fun c disk _ hD => hD.elim) rfl
    (sound_created hpeer floor disk) hperm
  have hr := hw.revoked after ⟨before, _, hfacts, ⟨hadmitted, hrevoke, hnone⟩, hafter⟩
  exact ⟨hr.caps, hr.quiet⟩

end Model

section Sample

open Sample

def revokeDraft : Draft :=
  ⟨info 0, .capability, "capability.revoke", (CapabilityAction.revoke (peer 1)).encode, .Local⟩

def calls : List HostedEvent :=
  [.move (.call (.plain (.ensureMember (info 1) none))),
    .move (.call (.plain (.send revokeDraft))),
    .move (.call (.plain (.send memberNote))),
    .move (.call (.plain (.send (note []))))]

/-- The admission has sent its grant before the `Revoke` is sent. -/
def inTurn : List HostedEvent := calls ++ acts 0 16 ++ acts 1 10 ++ acts 2 10 ++ acts 3 10

/-- The `Revoke` is sent between the admission's announcement and its grant. -/
def crossed : List HostedEvent := calls ++ acts 0 7 ++ acts 1 10 ++ acts 0 9 ++ acts 2 10

theorem revoked_stays_revoked_inTurn :
    ((runHosted daemon session blank (created session call 0 noDisk) inTurn).world.cells
        0).session.caps (peer 1) ≠ some .readWrite ∧
      ∀ m client owed, .committed m client owed ∈
          [Fact.written (note []), .committed (message 0 3 .chat "" []) true []] →
        m.peer.id ≠ peer 1 := by
  have hcalm : ∀ x ∈ inTurn, Calm (fun _ => True) x := by decide
  refine revoked_stays_revoked session rfl 0 noDisk blank inTurn (permitted_of_calm hcalm)
    ((trace daemon session blank (created session call 0 noDisk) inTurn).facts.take 3) _
    (message 0 2 .capability "capability.revoke" (CapabilityAction.revoke (peer 1)).encode) true []
    (by decide +kernel) ?_ (by decide +kernel) (by simp [NoneOwed]) (by decide +kernel)
  exact ⟨.readWrite, none, none, [], by decide +kernel⟩

/-- The admission's grant follows the `Revoke` and undoes it. -/
theorem grant_undoes_revoke :
    (∀ x ∈ crossed, Calm (fun _ => True) x) ∧
      (∃ before m owed after,
        (trace daemon session blank (created session call 0 noDisk) crossed).facts =
          before ++ .committed m true owed :: after ∧
        .admitted (peer 1) .readWrite none none [] ∈ before ∧
        actionOn (peer 0) (peer 1) m = some (.revoke (peer 1)) ∧
        (∀ f ∈ after, Undisturbed (peer 0) (peer 1) f) ∧
        ∃ m, m.peer.id = peer 1 ∧ .committed m true [] ∈ after) ∧
      ((runHosted daemon session blank (created session call 0 noDisk) crossed).world.cells
        0).session.caps (peer 1) = some .readWrite := by
  refine ⟨by decide, ?_, by decide +kernel⟩
  refine ⟨(trace daemon session blank (created session call 0 noDisk) crossed).facts.take 2,
    message 0 1 .capability "capability.revoke" (CapabilityAction.revoke (peer 1)).encode,
    [⟨0, peer 1, .readWrite, .announced⟩],
    (trace daemon session blank (created session call 0 noDisk) crossed).facts.drop 3,
    by decide +kernel, by decide +kernel, by decide +kernel, by decide +kernel, ?_⟩
  exact ⟨((runHosted daemon session blank (created session call 0 noDisk) crossed).world.cells
    0).session.log.getLast (by decide +kernel), by decide +kernel, by decide +kernel⟩

end Sample

end Artel.RevokedPeer
