import Artel.Lib.Run
import Artel.Session.Joiner

namespace Artel.CloseReplay

open Store

/-- A joiner's epochs for an id: of mirror, record and forwarder's watermark. -/
structure Epochs where
  memory : Option (SessionKind × UInt64)
  stored : Option (SessionKind × UInt64)
  mark : Option UInt64

def epochs (s : JoinerState) : Epochs where
  memory := s.memory.map fun session => (session.kind, session.hostEpoch)
  stored := (storedMeta s.disk).map stamp
  mark := s.forwarder.map Prod.snd

inductive Change : Epochs → Epochs → Prop
  | same {c : Epochs} : Change c c
  | subscribed {kind : SessionKind} {epoch : UInt64} {stored : Option (SessionKind × UInt64)} :
    Change ⟨some (kind, epoch), stored, none⟩ ⟨some (kind, epoch), stored, some epoch⟩
  /-- A mirror is made over no record or one of no later epoch. -/
  | made {epoch : UInt64} {stored : Option (SessionKind × UInt64)}
      (hstored : ∀ kind old, stored = some (kind, old) → old ≤ epoch) :
    Change ⟨none, stored, none⟩ ⟨some (.Remote, epoch), some (.Remote, epoch), some epoch⟩
  | raised {old epoch : UInt64} {stored : UInt64} (hold : old ≤ epoch) :
    Change ⟨some (.Remote, old), some (.Remote, stored), some old⟩
      ⟨some (.Remote, epoch), some (.Remote, epoch), some epoch⟩
  | gone {c : Epochs} : Change c ⟨none, none, none⟩
  | rebooted {c : Epochs} {memory : Option (SessionKind × UInt64)}
      (hmemory : memory = none ∨ memory = c.stored) : Change c ⟨memory, c.stored, none⟩

/-- A forwarder runs at its mirror's epoch, and the record of a mirror is not behind it. -/
structure Linked (c : Epochs) : Prop where
  mark : ∀ mark, c.mark = some mark → ∃ kind, c.memory = some (kind, mark)
  stored : ∀ kind epoch, c.memory = some (kind, epoch) →
    ∃ epoch', c.stored = some (.Remote, epoch') ∧ epoch ≤ epoch'
  remote : ∀ kind epoch, c.memory = some (kind, epoch) ∨ c.stored = some (kind, epoch) → kind = .Remote

theorem linked_at (epoch : UInt64) :
    Linked ⟨some (.Remote, epoch), some (.Remote, epoch), some epoch⟩ := by
  refine ⟨?_, ?_, ?_⟩
  · rintro mark ⟨⟩
    exact ⟨.Remote, rfl⟩
  · rintro kind epoch' ⟨⟩
    exact ⟨epoch, rfl, UInt64.le_refl _⟩
  · rintro kind epoch' (⟨⟨⟩⟩ | ⟨⟨⟩⟩) <;> rfl

theorem Linked.change {c c' : Epochs} (hc : Linked c) (h : Change c c') : Linked c' := by
  cases h with
  | same => exact hc
  | @subscribed kind epoch stored =>
    refine ⟨?_, hc.stored, hc.remote⟩
    rintro mark ⟨⟩
    exact ⟨kind, rfl⟩
  | made => exact linked_at _
  | raised => exact linked_at _
  | gone => exact ⟨nofun, nofun, by simp⟩
  | rebooted hmemory =>
    refine ⟨nofun, fun kind epoch hm => ?_, fun kind epoch h => ?_⟩
    · rcases hmemory with rfl | rfl
      · cases hm
      · obtain rfl := hc.remote kind epoch (.inr hm)
        exact ⟨epoch, hm, UInt64.le_refl _⟩
    · rcases h with hm | hs
      · rcases hmemory with rfl | rfl
        · cases hm
        · exact hc.remote kind epoch (.inr hm)
      · exact hc.remote kind epoch (.inr hs)

def Present (c : Epochs) : Prop := c.memory.isSome ∨ c.stored.isSome

instance (c : Epochs) : Decidable (Present c) := inferInstanceAs (Decidable (_ ∨ _))

structure Covered (floor : UInt64) (c : Epochs) : Prop where
  memory : ∀ kind epoch, c.memory = some (kind, epoch) → floor ≤ epoch
  stored : ∀ kind epoch, c.stored = some (kind, epoch) → floor ≤ epoch

theorem covered_at {floor epoch : UInt64} (h : floor ≤ epoch) (mark : Option UInt64) :
    Covered floor ⟨some (.Remote, epoch), some (.Remote, epoch), mark⟩ := by
  refine ⟨?_, ?_⟩
  · rintro kind epoch' ⟨⟩
    exact h
  · rintro kind epoch' ⟨⟩
    exact h

theorem Covered.change {floor : UInt64} {c c' : Epochs} (hc : Covered floor c) (hp : Present c)
    (h : Change c c') : Covered floor c' := by
  cases h with
  | same => exact hc
  | subscribed => exact ⟨hc.memory, hc.stored⟩
  | @made epoch stored hstored =>
    obtain ⟨⟨kind, old⟩, hold⟩ := Option.isSome_iff_exists.mp (hp.resolve_left nofun)
    exact covered_at (UInt64.le_trans (hc.stored kind old hold) (hstored kind old hold)) _
  | @raised old epoch stored hold => exact covered_at (UInt64.le_trans (hc.memory _ old rfl) hold) _
  | gone => exact ⟨nofun, nofun⟩
  | rebooted hmemory =>
    refine ⟨fun kind epoch hm => ?_, hc.stored⟩
    rcases hmemory with rfl | rfl
    · cases hm
    · exact hc.stored kind epoch hm

section Calls

variable {ed : Ed25519} (d : Daemon ed) (id : SessionId) {s : JoinerState} {session : Session}

theorem epochs_joinMember (hmem : s.memory = some session) (peer : PeerId) :
    epochs (s.joinMember session peer).2 = epochs s := by
  have hadd := stamp_updateMembers (insert peer) s.disk
  unfold JoinerState.joinMember
  dsimp only
  split
  · rfl
  split
  · rename_i heq
    rw [← addMember, heq] at hadd
    simp only [epochs, hadd]
  · rename_i heq
    rw [← addMember, heq] at hadd
    simp only [epochs, hadd, hmem, Option.map_some]

theorem change_subscribeInner (hmem : s.memory = some session) (subscribeError : Option String) :
    Change (epochs s) (epochs (s.subscribeInner session subscribeError).2) := by
  unfold JoinerState.subscribeInner
  split
  · exact .same
  · exact .same
  · rename_i hnone
    simp only [epochs, hmem, hnone, Option.map_some, Option.map_none]
    exact .subscribed

theorem Linked.idle (hs : Linked (epochs s)) (hmem : s.memory = none) : s.forwarder = none := by
  cases hf : s.forwarder with
  | none => rfl
  | some f =>
    obtain ⟨kind, hkind⟩ := hs.mark f.2 (by simp [epochs, hf])
    simp [epochs, hmem] at hkind

theorem join_cases (hmem : s.memory = none) (hidle : s.forwarder = none) (ticket : SessionTicket)
    (peer : PeerId) (subscribeError : Option String) :
    (∃ err, (s.join d id ticket peer subscribeError).1 = .error err ∧
      (epochs (s.join d id ticket peer subscribeError).2 = epochs s ∨
        epochs (s.join d id ticket peer subscribeError).2 = ⟨none, none, none⟩)) ∨
      epochs (s.join d id ticket peer subscribeError).2 =
        ⟨some (.Remote, ticket.hostEpoch), some (.Remote, ticket.hostEpoch), some ticket.hostEpoch⟩ := by
  -- a mirror's record has no log and no envelope, so its create comes through
  have hcreate : ∀ session : Session, session.record.log = [] →
      session.record.workspaceTicket = none →
      create session.record s.disk = (.ok (), (create session.record s.disk).2) := by
    intro session hlog hticket
    simp only [create, hlog, hticket, appendAll]
  unfold JoinerState.join
  rw [hmem]
  dsimp only
  split
  · exact .inl ⟨_, rfl, .inl rfl⟩
  split
  · exact .inl ⟨_, rfl, .inl rfl⟩
  rw [hcreate _ rfl rfl]
  simp only [JoinerState.subscribeInner, hidle]
  cases subscribeError with
  | some err => exact .inl ⟨_, rfl, .inr rfl⟩
  | none =>
    right
    rw [epochs_joinMember rfl]
    rfl

theorem join_some (hmem : s.memory = some session) (ticket : SessionTicket) (peer : PeerId)
    (subscribeError : Option String) :
    epochs (s.join d id ticket peer subscribeError).2 = epochs s := by
  unfold JoinerState.join
  rw [hmem]
  exact epochs_joinMember hmem peer

theorem change_join (hs : Linked (epochs s)) (ticket : SessionTicket) (peer : PeerId)
    (subscribeError : Option String) (hlow : s.memory = none →
      ∀ doc ∈ storedMeta s.disk, doc.hostEpoch ≤ ticket.hostEpoch) :
    Change (epochs s) (epochs (s.join d id ticket peer subscribeError).2) := by
  cases hmem : s.memory with
  | some session =>
    rw [join_some d id hmem]
    exact .same
  | none =>
    have hidle := hs.idle hmem
    rcases join_cases d id hmem hidle ticket peer subscribeError with
      ⟨err, -, heq | heq⟩ | heq <;> rw [heq]
    · exact .same
    · exact .gone
    · simp only [epochs, hmem, hidle, Option.map_none]
      refine .made fun kind old hold => ?_
      obtain ⟨doc, hdoc, hstamp⟩ := Option.map_eq_some_iff.mp hold
      exact (Prod.mk.inj hstamp).2 ▸ hlow hmem doc hdoc

theorem covered_join (hs : Linked (epochs s)) {ticket : SessionTicket} {peer : PeerId}
    {subscribeError : Option String} {head : Option Seq}
    (hok : (s.join d id ticket peer subscribeError).1 = .ok head)
    (hmemory : ∀ session ∈ s.memory, ticket.hostEpoch ≤ session.hostEpoch) :
    Covered ticket.hostEpoch (epochs (s.join d id ticket peer subscribeError).2) ∧
      Present (epochs (s.join d id ticket peer subscribeError).2) := by
  cases hmem : s.memory with
  | some session =>
    have hle := hmemory session hmem
    have hkind : (epochs s).memory = some (session.kind, session.hostEpoch) := by simp [epochs, hmem]
    rw [join_some d id hmem]
    refine ⟨⟨fun kind epoch hm => ?_, fun kind epoch hst => ?_⟩, .inl (by rw [hkind]; rfl)⟩
    · rw [hkind] at hm
      cases hm
      exact hle
    · obtain ⟨stored, hstored, hle'⟩ := hs.stored _ _ hkind
      cases hstored.symm.trans hst
      exact UInt64.le_trans hle hle'
  | none =>
    rcases join_cases d id hmem (hs.idle hmem) ticket peer subscribeError with ⟨err, herr, -⟩ | heq
    · cases herr.symm.trans hok
    · rw [heq]
      exact ⟨covered_at (UInt64.le_refl _) _, .inl rfl⟩

theorem change_resubscribe (subscribeError : Option String) :
    Change (epochs s) (epochs (s.resubscribeRemoteMirror subscribeError)) := by
  unfold JoinerState.resubscribeRemoteMirror
  split
  · exact .same
  · rename_i hmem
    exact change_subscribeInner hmem subscribeError

theorem change_epochBeacon (hs : Linked (epochs s)) (hostEpoch : UInt64) (hostSig : SigBytes) :
    Change (epochs s) (epochs (s.epochBeacon id ed hostEpoch hostSig)) := by
  unfold JoinerState.epochBeacon
  split
  · exact .same
  rename_i host watermark hf
  split
  · exact .same
  split
  · exact .same
  rename_i hnew
  have hmark : (epochs s).mark = some watermark := by simp [epochs, hf]
  obtain ⟨kind, hmemory⟩ := hs.mark watermark hmark
  obtain rfl := hs.remote kind watermark (.inl hmemory)
  obtain ⟨stored, hstored, -⟩ := hs.stored _ watermark hmemory
  obtain ⟨session, hmem, hsession⟩ := Option.map_eq_some_iff.mp hmemory
  obtain ⟨hkind, hepoch⟩ := Prod.mk.inj hsession
  obtain ⟨doc, hdoc, hstamp⟩ := Option.map_eq_some_iff.mp hstored
  have hlt : watermark < hostEpoch := UInt64.not_le.mp hnew
  have hbump : bumpHostEpoch hostEpoch s.disk =
      (.ok (), (bumpHostEpoch hostEpoch s.disk).2) :=
    Prod.ext (bumpHostEpoch_ok hostEpoch s.disk) rfl
  have hmax : max watermark hostEpoch = hostEpoch := if_pos (UInt64.le_of_lt hlt)
  have hadvance : s.advanceHostEpochWatermark hostEpoch =
      (.ok (), { s with
        memory := some { session with hostEpoch := hostEpoch }
        disk := (bumpHostEpoch hostEpoch s.disk).2 }) := by
    unfold JoinerState.advanceHostEpochWatermark
    rw [hmem]
    dsimp only
    rw [if_neg (by rw [hkind, hepoch]; simpa using hnew), hbump]
  rw [hadvance]
  have hbefore : epochs s = ⟨some (.Remote, watermark), some (.Remote, stored), some watermark⟩ := by
    rw [← hmemory, ← hstored, ← hmark]
  rw [hbefore]
  simp only [epochs, storedMeta_bumpHostEpoch hostEpoch hdoc, Option.map_some, stamp, hkind, hmax,
    (Prod.mk.inj hstamp).1]
  exact .raised (UInt64.le_of_lt hlt)

theorem change_sessionClosed (hostEpoch : UInt64) (hostSig : SigBytes) :
    Change (epochs s) (epochs (s.sessionClosed id ed hostEpoch hostSig)) := by
  unfold JoinerState.sessionClosed
  split
  · exact .same
  split
  · exact .same
  split
  · exact .same
  unfold JoinerState.hostClosedSession
  split
  · exact .same
  · split
    · exact .same
    · exact .gone

theorem change_restart (skipped : Option Skip) : Change (epochs s) (epochs (s.restart d id skipped)) := by
  have hload := stamp_load ed id d.signingKey.isSome s.disk
  unfold JoinerState.restart
  split
  · exact .rebooted (.inl rfl)
  · simp only [epochs, hload]
    exact .rebooted (c := epochs s) (.inl rfl)
  split
  · rename_i heq
    rw [heq] at hload
    simp only [epochs, hload]
    exact .rebooted (c := epochs s) (.inl rfl)
  · rename_i r disk heq
    have hr := load_stamp (congrArg Prod.fst heq)
    rw [heq] at hload
    simp only [epochs, hload]
    exact .rebooted (c := epochs s) (.inr hr.symm)

theorem le_of_sessionClosed {hostEpoch : UInt64} {hostSig : SigBytes} (hmem : s.memory ≠ none)
    (hgone : (s.sessionClosed id ed hostEpoch hostSig).memory = none) :
    ∃ mark, (epochs s).mark = some mark ∧ mark ≤ hostEpoch := by
  unfold JoinerState.sessionClosed at hgone
  split at hgone
  · exact absurd hgone hmem
  rename_i host watermark hf
  split at hgone
  · exact absurd hgone hmem
  · split at hgone
    · exact absurd hgone hmem
    · rename_i hle
      exact ⟨watermark, by simp [epochs, hf], UInt64.not_lt.mp hle⟩

theorem memory_advance {hostEpoch : UInt64}
    (hgone : (s.advanceHostEpochWatermark hostEpoch).2.memory = none) : s.memory = none := by
  unfold JoinerState.advanceHostEpochWatermark at hgone
  split at hgone
  · exact hgone
  · split at hgone
    · exact hgone
    · split at hgone
      · exact hgone
      · cases hgone

theorem memory_epochBeacon {hostEpoch : UInt64} {hostSig : SigBytes}
    (hgone : (s.epochBeacon id ed hostEpoch hostSig).memory = none) : s.memory = none := by
  unfold JoinerState.epochBeacon at hgone
  split at hgone
  · exact hgone
  split at hgone
  · exact hgone
  split at hgone
  · exact hgone
  · split at hgone
    · rename_i heq
      exact memory_advance (by rw [heq]; exact hgone)
    · rename_i heq
      exact memory_advance (by rw [heq]; exact hgone)

end Calls

structure Frame where
  kind : Signing.CtrlFrame
  hostEpoch : UInt64
  hostSig : SigBytes
  deriving DecidableEq

/-- A host and a joiner, the tickets minted and the control frames signed. -/
structure System where
  host : HostState
  minted : List SessionTicket
  captured : List Frame
  joiner : JoinerState

inductive Event
  | host (op : HostOp)
  | issueTicket (call : HostCall)
  | join (ticket : SessionTicket) (peer : PeerId) (subscribeError : Option String)
  | resubscribe (subscribeError : Option String)
  | restart (skipped : Option Skip)
  | deliver (frame : Frame)

section Model

variable {ed : Ed25519} (host joiner : Daemon ed) (id : SessionId)

/-- What a host signs for its session at an epoch. -/
def signFrame (kind : Signing.CtrlFrame) (hostEpoch : UInt64) : List Frame :=
  (host.signingKey.map fun key => ⟨kind, hostEpoch, Signing.signCtrl ed key id kind hostEpoch⟩).toList

/-- A resume is followed by a beacon, the host's leave by a close. -/
def hostStep (s : System) (op : HostOp) : System :=
  let after := HostState.step host id s.host op
  match op, s.host.memory, after.memory with
  | .host call, none, some session =>
    { s with host := after, minted := s.minted ++ [mintTicket host id call session.hostEpoch] }
  | .host call, some old, some session =>
    if session.tickets = old.tickets then { s with host := after }
    else
      { s with
        host := after
        minted := s.minted ++ [mintTicket host id call session.hostEpoch]
        captured := s.captured ++ signFrame host id .beacon session.hostEpoch }
  | .leave _, some old, none =>
    { s with host := after, captured := s.captured ++ signFrame host id .close old.hostEpoch }
  | _, _, _ => { s with host := after }

/-- Another ticket at the current epoch, if the ledger can be written. -/
def issueTicket (s : System) (call : HostCall) : System :=
  match s.host.memory with
  | none => s
  | some session =>
    if session.kind ≠ .Local then s
    else
      let tickets := session.tickets ++ [ledgerEntry call]
      match putTickets tickets s.host.disk with
      | (.error _, disk) => { s with host := { s.host with disk := disk } }
      | (.ok _, disk) =>
        { s with
          host := { s.host with memory := some { session with tickets := tickets }, disk := disk }
          minted := s.minted ++ [mintTicket host id call session.hostEpoch] }

def step (s : System) : Event → System
  | .host op => hostStep host id s op
  | .issueTicket call => issueTicket host id s call
  | .join ticket peer subscribeError =>
    { s with joiner := (s.joiner.join joiner id ticket peer subscribeError).2 }
  | .resubscribe subscribeError =>
    { s with joiner := s.joiner.resubscribeRemoteMirror subscribeError }
  | .restart skipped => { s with joiner := s.joiner.restart joiner id skipped }
  | .deliver frame =>
    match frame.kind with
    | .beacon => { s with joiner := s.joiner.epochBeacon id ed frame.hostEpoch frame.hostSig }
    | .close => { s with joiner := s.joiner.sessionClosed id ed frame.hostEpoch frame.hostSig }

def start : System := ⟨⟨none, ⟨none, none⟩, []⟩, [], [], ⟨none, ⟨none, none⟩, none⟩⟩

abbrev run (events : List Event) : System := events.foldl (step host joiner id) start

/-- A join finds no mirror of an earlier epoch and no record of a later one. -/
def Allowed (s : System) : Event → Prop
  | .join ticket _ _ =>
    (ticket ∈ s.minted → ∀ session ∈ s.joiner.memory, ticket.hostEpoch ≤ session.hostEpoch) ∧
      (s.joiner.memory = none → ∀ doc ∈ storedMeta s.joiner.disk, doc.hostEpoch ≤ ticket.hostEpoch)
  | _ => True

instance (s : System) : DecidablePred (Allowed s)
  | .join _ _ _ => inferInstanceAs (Decidable (_ ∧ _))
  | .host _ | .issueTicket _ | .resubscribe _ | .restart _ | .deliver _ => isTrue trivial

variable {host joiner id} {s : System}

theorem joiner_hostStep (op : HostOp) : (hostStep host id s op).joiner = s.joiner := by
  unfold hostStep
  dsimp only
  split
  · rfl
  · split <;> rfl
  · rfl
  · rfl

theorem joiner_issueTicket (call : HostCall) : (issueTicket host id s call).joiner = s.joiner := by
  unfold issueTicket
  split
  · rfl
  · split
    · rfl
    · dsimp only
      split <;> rfl

section

variable (hs : Linked (epochs s.joiner))
include hs

theorem change_step {x : Event} (hx : Allowed s x) :
    Change (epochs s.joiner) (epochs (step host joiner id s x).joiner) := by
  cases x with
  | host op =>
    simp only [step, joiner_hostStep]
    exact .same
  | issueTicket call =>
    simp only [step, joiner_issueTicket]
    exact .same
  | join ticket peer subscribeError => exact change_join joiner id hs ticket peer subscribeError hx.2
  | resubscribe subscribeError => exact change_resubscribe subscribeError
  | restart skipped => exact change_restart joiner id skipped
  | deliver frame =>
    simp only [step]
    split
    · exact change_epochBeacon id hs frame.hostEpoch frame.hostSig
    · exact change_sessionClosed id frame.hostEpoch frame.hostSig

theorem linked_run {es : List Event}
    (hes : Along (step host joiner id) Allowed s es) :
    Linked (epochs (es.foldl (step host joiner id) s).joiner) :=
  hes.invariant (I := fun s => Linked (epochs s.joiner)) (fun _ _ hs hx => hs.change (change_step hs hx)) hs

theorem covered_run {floor : UInt64} {es : List Event}
    (hfloor : Covered floor (epochs s.joiner)) (hpresent : Present (epochs s.joiner))
    (hes : Along (step host joiner id) Allowed s es)
    (hstays : Along (step host joiner id)
      (fun s x => Present (epochs (step host joiner id s x).joiner)) s es) :
    Covered floor (epochs (es.foldl (step host joiner id) s).joiner) := by
  induction es generalizing s with
  | nil => exact hfloor
  | cons x es ih =>
    have hchange : Change _ (epochs (step host joiner id s x).joiner) := change_step hs hes.1
    exact ih (hs.change hchange) (hfloor.change hpresent hchange) hstays.1 hes.2 hstays.2

end

variable (host joiner) in
theorem close_of_gone {floor : UInt64} {frame : Frame} (hs : Linked (epochs s.joiner))
    (hfloor : Covered floor (epochs s.joiner)) (hmem : s.joiner.memory ≠ none)
    (hgone : (step host joiner id s (.deliver frame)).joiner.memory = none) :
    frame.kind = .close ∧ floor ≤ frame.hostEpoch := by
  simp only [step] at hgone
  split at hgone
  · exact absurd (memory_epochBeacon id hgone) hmem
  · rename_i hkind
    obtain ⟨mark, hmark, hle⟩ := le_of_sessionClosed id hmem hgone
    obtain ⟨kind, hmemory⟩ := hs.mark mark hmark
    exact ⟨hkind, UInt64.le_trans (hfloor.memory kind mark hmemory) hle⟩

/-- A close that takes a joined mirror away is not below the ticket's epoch. -/
theorem close_not_below {es₁ es₂ : List Event} {ticket : SessionTicket} {peer : PeerId}
    {subscribeError : Option String} {frame : Frame}
    (hallowed : Along (step host joiner id) Allowed start
      (es₁ ++ .join ticket peer subscribeError :: es₂))
    (hgenuine : ticket ∈ (run host joiner id es₁).minted)
    (hok : ∃ head, ((run host joiner id es₁).joiner.join joiner id ticket peer subscribeError).1 =
      .ok head)
    (hstays : Along (step host joiner id)
      (fun s x => Present (epochs (step host joiner id s x).joiner))
      (run host joiner id (es₁ ++ [.join ticket peer subscribeError])) es₂)
    (hmem : (run host joiner id (es₁ ++ .join ticket peer subscribeError :: es₂)).joiner.memory ≠ none)
    (hgone : (run host joiner id
      (es₁ ++ .join ticket peer subscribeError :: es₂ ++ [.deliver frame])).joiner.memory = none) :
    frame.kind = .close ∧ ticket.hostEpoch ≤ frame.hostEpoch := by
  obtain ⟨hes₁, hjoin, hes₂⟩ := hallowed.split
  have hstart : Linked (epochs start.joiner) := ⟨nofun, nofun, by simp [epochs, start, storedMeta]⟩
  have hlinked : Linked (epochs (run host joiner id es₁).joiner) := linked_run hstart hes₁
  obtain ⟨head, hok⟩ := hok
  obtain ⟨hcovered, hpresent⟩ := covered_join joiner id hlinked hok (hjoin.1 hgenuine)
  have hjoined : Linked (epochs ((run host joiner id es₁).joiner.join joiner id ticket peer
      subscribeError).2) :=
    hlinked.change (change_join joiner id hlinked ticket peer subscribeError hjoin.2)
  rw [run, List.foldl_append] at hstays hmem
  rw [run, List.foldl_append, List.foldl_append] at hgone
  exact close_of_gone host joiner (linked_run hjoined hes₂)
    (covered_run hjoined hcovered hpresent hes₂ hstays) hmem hgone

end Model

section Sample

open Sample

def joinerDaemon : Daemon .checksum := ⟨peer 1, some (peer 1)⟩

def ticket (hostEpoch : UInt64) : SessionTicket := mintTicket daemon session call hostEpoch

def close (hostEpoch : UInt64) : Frame :=
  ⟨.close, hostEpoch, Signing.signCtrl .checksum (peer 0) session .close hostEpoch⟩

/-- The host leaves and hosts the id again; `frames` says what the joiner hears. -/
def rehosted (frames : List Event) : List Event :=
  [.host (.host call), .join (ticket 0) (peer 1) none, .host (.leave (peer 0))] ++ frames ++
    [.host (.host call)]

/-- The close came through; replayed, it leaves the second mirror alone. -/
theorem close_not_below_second :
    (run daemon joinerDaemon session (rehosted [.deliver (close 0)] ++ .join (ticket 1) (peer 1) none ::
        [.deliver (close 0), .host (.leave (peer 0))])).joiner.memory ≠ none ∧
      (close 1).kind = .close ∧ (ticket 1).hostEpoch ≤ (close 1).hostEpoch := by
  have hallowed : Along (step daemon joinerDaemon session) Allowed start
      (rehosted [.deliver (close 0)] ++ .join (ticket 1) (peer 1) none ::
        [.deliver (close 0), .host (.leave (peer 0))]) := by decide +kernel
  have hmem : (run daemon joinerDaemon session (rehosted [.deliver (close 0)] ++
      .join (ticket 1) (peer 1) none :: [.deliver (close 0), .host (.leave (peer 0))])).joiner.memory ≠
        none := by
    decide +kernel
  refine ⟨hmem, close_not_below hallowed ?_ ⟨none, ?_⟩ ?_ hmem ?_⟩
  · decide +kernel
  · decide +kernel
  · decide +kernel
  · rw [← Option.isNone_iff_eq_none]
    decide +kernel

/-- The close of epoch 0 takes the mirror that the second join adopted. -/
theorem replayed_close :
    ticket 1 ∈ (run daemon joinerDaemon session (rehosted [])).minted ∧
      ((run daemon joinerDaemon session (rehosted [])).joiner.join joinerDaemon session (ticket 1)
        (peer 1) none).1 = .ok none ∧
      close 0 ∈ (run daemon joinerDaemon session (rehosted [])).captured ∧
      (run daemon joinerDaemon session
        (rehosted [] ++ [.join (ticket 1) (peer 1) none])).joiner.memory.isSome ∧
      (run daemon joinerDaemon session
        (rehosted [] ++ [.join (ticket 1) (peer 1) none, .deliver (close 0)])).joiner.memory.isNone ∧
      (close 0).hostEpoch < (ticket 1).hostEpoch := by
  refine ⟨?_, ?_, ?_, ?_, ?_, ?_⟩ <;> decide +kernel

end Sample

end Artel.CloseReplay
