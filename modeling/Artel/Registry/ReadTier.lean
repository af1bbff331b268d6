import Artel.Registry.Outstanding
import Artel.Store.Filed

namespace Artel.ReadTier

open Store Sequencer

section Model

variable {ed : Ed25519} (d : Daemon ed) (id : SessionId)

/-- What a load reads is as it was, or has one frame more that grants the peer nothing. -/
def Residue (host peer : PeerId) (disk disk' : Disk) : Prop :=
  disk'.kept = disk.kept ∨
    ∃ m mid, append none m disk = (.ok (), mid) ∧
      actionOn host peer m ≠ some (.grant peer .readWrite) ∧ disk'.kept = mid.kept

/-- A crash may tear the frame that it interrupts. -/
def CrashResidue (host peer : PeerId) (disk disk' : Disk) : Prop :=
  ∃ mid tail, Residue host peer disk mid ∧ mid.TornTo tail disk'

/-- An admission at `Read` while no `ReadWrite` is held, stored or outstanding. -/
def Opens (peer : PeerId) : Fact → Prop
  | .admitted q cap held stored owed =>
    q = peer ∧ cap = .read ∧ held ≠ some .readWrite ∧ stored ≠ some .readWrite ∧ NoneOwed peer owed
  | _ => False

/-- The peer is not admitted again, and no client asks for a grant of `ReadWrite` to it. -/
def Undisturbed (host peer : PeerId) : Fact → Prop
  | .admitted q _ _ _ _ => q ≠ peer
  | .written draft => draft.actionOn host peer ≠ some (.grant peer .readWrite)
  | .committed _ _ _ => True

instance (host peer : PeerId) : DecidablePred (Undisturbed host peer)
  | .admitted _ _ _ _ _ => inferInstanceAs (Decidable (_ ≠ _))
  | .written _ => inferInstanceAs (Decidable (_ ≠ _))
  | .committed _ _ _ => .isTrue trivial

abbrev Period (peer : PeerId) : List Fact → List Fact → Prop :=
  Since (fun _ => Opens peer) (Undisturbed d.peerId peer)

/-- The peer may not write, now, after a restart and with what is on its way. -/
structure Barred (peer : PeerId) (c : State) (after : List Fact) : Prop where
  stranger : peer ≠ d.peerId
  caps : c.session.caps peer ≠ some .readWrite
  stored : projectCaps d.peerId (storedLog d id c.disk) peer ≠ some .readWrite
  owed : NoneOwed peer c.trace.owed
  author : ∀ w ∈ c.writing, w.draft.peer.id ≠ peer
  action : ∀ w ∈ c.writing, actionOn d.peerId peer w.message ≠ some (.grant peer .readWrite)
  written : ∀ draft, .written draft ∈ after → draft.peer.id ≠ peer
  committed : ∀ m client owed, .committed m client owed ∈ after → m.peer.id ≠ peer

/-- The log file holds whole frames of messages, behind a record that a load takes. -/
def Whole (host : PeerId) (disk : Disk) : Prop :=
  ∃ file, Filed host .Local file disk ∧ ∀ m ∈ file, (encodeMessage m).length ≤ MAX_FRAME_SIZE

structure Sound (peer : PeerId) (c : State) : Prop where
  isLocal : c.session.kind = .Local
  host_eq : c.session.host = d.peerId
  faithful : ∀ w ∈ c.writing, Faithful d c.session w
  whole : Whole d.peerId c.disk
  barred : ∀ after, Period d peer c.trace.facts after → Barred d id peer c after

/-- A write to the disk that keeps it whole and gives the peer nothing. -/
structure Steady (peer : PeerId) (disk disk' : Disk) : Prop where
  whole : Whole d.peerId disk'
  stored : peer ≠ d.peerId → projectCaps d.peerId (storedLog d id disk) peer ≠ some .readWrite →
    projectCaps d.peerId (storedLog d id disk') peer ≠ some .readWrite

variable {d id} {peer : PeerId} {c : State} {disk disk' : Disk}

theorem Steady.trans {disk'' : Disk} (h : Steady d id peer disk disk')
    (h' : Steady d id peer disk' disk'') : Steady d id peer disk disk'' :=
  ⟨h'.whole, fun hne hs => h'.stored hne (h.stored hne hs)⟩

theorem steady_of_filed (h : Whole d.peerId disk)
    (hfiled : ∀ file, Filed d.peerId .Local file disk → Filed d.peerId .Local file disk') :
    Steady d id peer disk disk' := by
  obtain ⟨file, hfile, hsize⟩ := h
  refine ⟨⟨file, hfiled file hfile, hsize⟩, fun _ hs => ?_⟩
  rwa [storedLog, (hfiled file hfile).logBytes, ← hfile.logBytes]

variable (d id) in
theorem Whole.append {host : PeerId} (h : Whole host disk) {m : SessionMessage}
    (hok : append none m disk = (.ok (), disk')) :
    Whole host disk' ∧ (storedLog d id disk' = storedLog d id disk ∨
      storedLog d id disk' = storedLog d id disk ++ [m]) := by
  obtain ⟨file, hfile, hsize⟩ := h
  have hm : (encodeMessage m).length ≤ MAX_FRAME_SIZE := by
    by_contra hlong
    obtain ⟨dir, doc, hdir, hin⟩ := hfile
    rw [append_oversize m hdir hin.log_eq (Nat.lt_of_not_le hlong)] at hok
    cases hok
  obtain ⟨disk₁, hok₁, hfile'⟩ := hfile.append hm
  obtain rfl : disk' = disk₁ := by
    rw [hok] at hok₁
    exact congrArg Prod.snd hok₁
  have hsize' : ∀ x ∈ file ++ [m], (encodeMessage x).length ≤ MAX_FRAME_SIZE := by
    intro x hx
    rcases List.mem_append.mp hx with hx | hx
    · exact hsize x hx
    · rwa [List.mem_singleton.mp hx]
  refine ⟨⟨_, hfile', hsize'⟩, ?_⟩
  rw [storedLog, storedLog, hfile.logBytes, hfile'.logBytes]
  exact readLog_append_singleton ed id d.signingKey.isSome hsize'

theorem steady_append (h : Whole d.peerId disk) {m : SessionMessage}
    (hok : append none m disk = (.ok (), disk'))
    (hm : actionOn d.peerId peer m ≠ some (.grant peer .readWrite)) :
    Steady d id peer disk disk' := by
  obtain ⟨hwhole, hlog⟩ := h.append d id hok
  refine ⟨hwhole, fun hne hs => ?_⟩
  obtain hlog | hlog := hlog
  · rwa [hlog]
  · rw [hlog]
    exact projectCaps_append_ne hne hs hm

theorem steady_of_residue (h : Whole d.peerId disk) (hres : Residue d.peerId peer disk disk') :
    Steady d id peer disk disk' := by
  obtain hkept | ⟨m, mid, hok, hm, hkept⟩ := hres
  · exact steady_of_filed h fun _ hfile => hfile.of_kept hkept
  · have happ : Steady d id peer disk mid := steady_append h hok hm
    exact happ.trans (steady_of_filed happ.whole fun _ hfile => hfile.of_kept hkept)

theorem Sound.of_steady (h : Sound d id peer c) (hdisk : Steady d id peer c.disk disk) :
    Sound d id peer { c with disk := disk } :=
  { h with
    whole := hdisk.whole
    barred := fun after hafter =>
      have hb := h.barred after hafter
      { hb with stored := hdisk.stored hb.stranger hb.stored } }

theorem period_write {t : Trace} {draft : Draft} {grant : Option (PeerId × Capability)}
    {after : List Fact} (h : Period d peer (t.write draft grant).facts after) :
    ∃ rest, Period d peer t.facts rest ∧ (∀ f ∈ after, f ∈ rest ∨ f = .written draft) ∧
      (grant = none → draft.actionOn d.peerId peer ≠ some (.grant peer .readWrite)) := by
  cases grant with
  | some g => exact ⟨after, h, fun f hf => .inl hf, by simp⟩
  | none =>
    obtain ⟨rest, rfl, hrest, hkeeps⟩ | ⟨-, hopens⟩ := since_append h
    · exact ⟨rest, hrest, by simp, fun _ => hkeeps⟩
    · exact hopens.elim

theorem Barred.of_speaks {after : List Fact} (h : Barred d id peer c after) {A : Draft → Prop}
    {w : Writing} (hfaithful : Faithful d c.session w)
    (hspeaks : Speaks d A c.trace.owed w.draft w.grant)
    (hclient : w.grant = none → w.draft.actionOn d.peerId peer ≠ some (.grant peer .readWrite)) :
    w.draft.peer.id ≠ peer ∧
      actionOn d.peerId peer w.message ≠ some (.grant peer .readWrite) := by
  constructor
  · intro hauthor
    have hcaps := caps_of_canWrite hfaithful.prepared.canWrite
    rw [hauthor] at hcaps
    exact h.caps hcaps
  · intro hact
    cases hgrant : w.grant with
    | none =>
      rw [hfaithful.action] at hact
      exact hclient hgrant hact
    | some g => exact hspeaks.grant_ne h.owed (actionOn_grant hfaithful hgrant hact)

theorem Sound.write (h : Sound d id peer c) {A : Draft → Prop} {w : Writing}
    (hfaithful : Faithful d c.session w) (hspeaks : Speaks d A c.trace.owed w.draft w.grant)
    {writing : Option Writing} (hwriting : ∀ x ∈ writing, x = w ∨ x ∈ c.writing)
    (hwhole : Whole d.peerId disk)
    (hdisk : actionOn d.peerId peer w.message ≠ some (.grant peer .readWrite) →
      Steady d id peer c.disk disk) :
    Sound d id peer ⟨c.session, disk, writing, c.trace.write w.draft w.grant⟩ := by
  refine
    { isLocal := h.isLocal
      host_eq := h.host_eq
      faithful := fun x hx => ?_
      whole := hwhole
      barred := fun after hafter => ?_ }
  · obtain rfl | hx := hwriting x hx
    · exact hfaithful
    · exact h.faithful x hx
  obtain ⟨rest, hrest, hold, hclient⟩ := period_write hafter
  have hb := h.barred rest hrest
  obtain ⟨hauthor, haction⟩ := hb.of_speaks hfaithful hspeaks hclient
  exact
    { stranger := hb.stranger
      caps := hb.caps
      stored := (hdisk haction).stored hb.stranger hb.stored
      owed := by
        rw [write_owed]
        exact hb.owed
      author := fun x hx => by
        obtain rfl | hx := hwriting x hx
        · exact hauthor
        · exact hb.author x hx
      action := fun x hx => by
        obtain rfl | hx := hwriting x hx
        · exact haction
        · exact hb.action x hx
      written := fun draft hdraft => by
        obtain hdraft | heq := hold _ hdraft
        · exact hb.written draft hdraft
        · rwa [Fact.written.inj heq]
      committed := fun m client owed hm =>
        hb.committed m client owed ((hold _ hm).resolve_right (by simp)) }

theorem Sound.commit (h : Sound d id peer c) {w : Writing} (hw : c.writing = some w) :
    Sound d id peer { c with
      session := commitSend c.session w.message
      writing := none
      trace := c.trace.commit w.grant.isNone (some w.message) } := by
  have hnone : ∀ x : Writing, x ∉ (none : Option Writing) := by simp
  refine
    { isLocal := h.isLocal
      host_eq := h.host_eq
      faithful := fun x hx => absurd hx (hnone x)
      whole := h.whole
      barred := fun after hafter => ?_ }
  obtain ⟨rest, rfl, hrest, -⟩ | ⟨-, hopens⟩ := since_append hafter
  · have hb := h.barred rest hrest
    refine
      { stranger := hb.stranger
        caps := ?_
        stored := hb.stored
        owed := hb.owed
        author := fun x hx => absurd hx (hnone x)
        action := fun x hx => absurd hx (hnone x)
        written := fun draft hdraft => hb.written draft (by simpa using hdraft)
        committed := fun m client owed hm => ?_ }
    · rw [commitSend_caps, h.host_eq]
      exact stepCaps_ne hb.stranger hb.caps (hb.action w hw)
    · rcases List.mem_append.mp hm with hm | hm
      · exact hb.committed m client owed hm
      · obtain ⟨rfl, -, -⟩ : m = w.message ∧ client = w.grant.isNone ∧ owed = c.trace.owed := by
          simpa using hm
        rw [(h.faithful w hw).prepared.peer]
        exact hb.author w hw
  · exact hopens.elim

theorem Sound.admission (h : Sound d id peer c) (hfree : c.writing = none) (i : ℕ) (q : PeerId)
    (cap : Capability) (hdisk : Steady d id peer c.disk disk) :
    Sound d id peer { c with
      disk := disk
      trace :=
        { facts := c.trace.facts ++ [.admitted q cap (c.session.caps q)
            (projectCaps c.session.host (storedLog d id c.disk) q) c.trace.owed]
          owed := c.trace.owed ++ [⟨i, q, cap, .admitted⟩] } } := by
  have hnone : ∀ w, w ∉ c.writing := by simp [hfree]
  refine { h with whole := hdisk.whole, barred := fun after hafter => ?_ }
  obtain ⟨rest, rfl, hrest, hkeeps⟩ | ⟨rfl, rfl, rfl, hheld, hstored, howed⟩ := since_append hafter
  · have hb := h.barred rest hrest
    refine
      { stranger := hb.stranger
        caps := hb.caps
        stored := hdisk.stored hb.stranger hb.stored
        owed := fun x hx hpeer => ?_
        author := hb.author
        action := hb.action
        written := fun draft hdraft => hb.written draft (by simpa using hdraft)
        committed := fun m client owed hm => hb.committed m client owed (by simpa using hm) }
    rcases List.mem_append.mp hx with hx | hx
    · exact hb.owed x hx hpeer
    · obtain rfl := List.mem_singleton.mp hx
      exact absurd hpeer hkeeps
  · -- the host would hold `ReadWrite` in whatever log is stored
    rw [h.host_eq] at hstored
    have hne : q ≠ d.peerId := by
      rintro rfl
      exact hstored (projectCaps_host _ _)
    refine
      { stranger := hne
        caps := hheld
        stored := hdisk.stored hne hstored
        owed := fun x hx hpeer => ?_
        author := fun w hw => absurd hw (hnone w)
        action := fun w hw => absurd hw (hnone w)
        written := by simp
        committed := by simp }
    rcases List.mem_append.mp hx with hx | hx
    · exact howed x hx hpeer
    · obtain rfl := List.mem_singleton.mp hx
      simp

theorem steady_updateMembers (h : Whole d.peerId disk) (f : Finset PeerId → Finset PeerId) :
    Steady d id peer disk (updateMembers f disk).2 := by
  apply steady_of_filed h
  intro file hfile
  obtain ⟨disk', heq, hfile'⟩ := hfile.updateMembers f
  rwa [heq]

theorem steady_putTickets (h : Whole d.peerId disk) (tickets : List TicketEntry) :
    Steady d id peer disk (putTickets tickets disk).2 := by
  apply steady_of_filed h
  intro file hfile
  obtain ⟨disk', heq, hfile'⟩ := hfile.putTickets tickets
  rwa [heq]

theorem sound_step {A : Draft → Prop} {c' : State} (h : Sound d id peer c)
    (hstep : Step d id A (Residue d.peerId peer) c c') : Sound d id peer c' := by
  cases hstep with
  | append hfree hprep hspeaks hok =>
    refine h.write (faithful_of_prepareSend hprep hspeaks) hspeaks ?_ (h.whole.append d id hok).1
      (steady_append h.whole hok)
    exact fun x hx => .inl (Option.some.inj hx).symm
  | refused hfree hprep hspeaks herr =>
    rename_i disk
    have hdisk : Steady d id peer c.disk disk := by
      obtain hres | ⟨e, herr⟩ := herr
      · exact steady_of_residue h.whole hres
      · exact steady_of_filed h.whole fun _ hfile => hfile.append_error herr
    exact h.write (faithful_of_prepareSend hprep hspeaks) hspeaks (fun x hx => .inr hx) hdisk.whole
      fun _ => hdisk
  | commit hw => exact h.commit hw
  | amend members tickets hfree hhost =>
    have hnone : ∀ w, w ∉ c.writing := by simp [hfree]
    exact
      { h with
        faithful := fun w hw => absurd hw (hnone w)
        barred := fun after hafter => { h.barred after hafter with } }
  | storeMembers f => exact h.of_steady (steady_updateMembers h.whole f)
  | storeTickets tickets => exact h.of_steady (steady_putTickets h.whole tickets)
  | fail hfail => exact h.of_steady (steady_of_residue h.whole hfail)
  | admission i q cap hfree hnew hok =>
    refine h.admission hfree i q cap ?_
    have hdisk : Steady d id peer c.disk (addMember q c.disk).2 :=
      steady_updateMembers h.whole (insert q)
    rwa [hok] at hdisk
  | advance i next =>
    exact
      { h with
        barred := fun after hafter =>
          have hb := h.barred after hafter
          { hb with owed := hb.owed.advance i next } }

theorem sound_restarted (h : Sound d id peer c) (hres : CrashResidue d.peerId peer c.disk disk) :
    ∃ r disk', Store.load ed id d.signingKey.isSome disk = (.ok r, disk') ∧
      Sound d id peer (restarted c r disk') := by
  obtain ⟨mid, tail, hmid, htorn⟩ := hres
  have hsteady : Steady d id peer c.disk mid := steady_of_residue h.whole hmid
  obtain ⟨file, hfile, hsize⟩ := hsteady.whole
  obtain ⟨r, disk', hload, hhost, hkind, hlog, hfile'⟩ :=
    hfile.load_torn htorn ed id d.signingKey.isSome hsize
  refine ⟨r, disk', hload, ?_⟩
  have hstored : storedLog d id mid = r.log := by rw [storedLog, hfile.logBytes, hlog]
  have hstored' : storedLog d id disk' = r.log := by rw [storedLog, hfile'.logBytes, hlog]
  refine
    { isLocal := hkind
      host_eq := hhost
      faithful := by simp [restarted]
      whole := ⟨file, hfile', hsize⟩
      barred := fun after hafter => ?_ }
  have hb := h.barred after hafter
  have hcaps := hsteady.stored hb.stranger hb.stored
  rw [hstored] at hcaps
  refine
    { stranger := hb.stranger
      caps := ?_
      stored := ?_
      owed := by simp [restarted, NoneOwed]
      author := by simp [restarted]
      action := by simp [restarted]
      written := hb.written
      committed := hb.committed }
  · simp only [restarted, Session.fromRecord, hhost]
    exact hcaps
  · simp only [restarted, hstored']
    exact hcaps

variable (d id) in
theorem sound_created {call : HostCall} (hpeer : call.peer = d.peerId) (floor : UInt64)
    (hdir : disk.dir = none) :
    Sound d id peer ⟨((created id call floor disk).cells 0).session,
      (created id call floor disk).disk, none, ⟨[], []⟩⟩ := by
  obtain ⟨disk', hcreate, hfiled⟩ :=
    filed_create hdir (createdSession id call floor).record rfl rfl
  have hdisk : (created id call floor disk).disk = disk' := congrArg Prod.snd hcreate
  have hhost : (createdSession id call floor).record.host = d.peerId := hpeer
  rw [hhost] at hfiled
  refine
    { isLocal := rfl
      host_eq := hpeer
      faithful := by simp
      whole := ⟨[], by rwa [hdisk], by simp⟩
      barred := ?_ }
  rintro after ⟨before, f, heq, -⟩
  simp at heq

variable (d id) in
/-- Admitted at `Read`, a peer writes nothing until it is admitted or granted again. -/
theorem read_tier_never_writes {call : HostCall} (hpeer : call.peer = d.peerId) (floor : UInt64)
    (hdir : disk.dir = none) (blank : Session) (hs : List HostedEvent)
    (hperm : Permitted d id blank (fun _ => True) (Residue d.peerId peer)
      (CrashResidue d.peerId peer) (created id call floor disk) hs) (before after : List Fact)
    (held stored : Option Capability) (owed : List Owed)
    (hfacts : (trace d id blank (created id call floor disk) hs).facts =
      before ++ .admitted peer .read held stored owed :: after)
    (hheld : held ≠ some .readWrite) (hstored : stored ≠ some .readWrite)
    (hnone : NoneOwed peer owed) (hafter : ∀ f ∈ after, Undisturbed d.peerId peer f) :
    (∀ draft, .written draft ∈ after → draft.peer.id ≠ peer) ∧
      ∀ m client owed, .committed m client owed ∈ after → m.peer.id ≠ peer := by
  have hclosed : Closed d id (fun _ => True) (Residue d.peerId peer) (Sound d id peer) :=
    ⟨fun c hc => hc.isLocal, fun c c' hc hstep => sound_step hc hstep⟩
  obtain ⟨-, w, hw⟩ := of_history hclosed (fun c disk hc hres => sound_restarted hc hres) rfl
    (sound_created d id hpeer floor hdir) hperm
  have hb := hw.barred after
    ⟨before, _, hfacts, ⟨rfl, rfl, hheld, hstored, hnone⟩, hafter⟩
  exact ⟨hb.written, hb.committed⟩

end Model

section Sample

open Sample

def readCall : HostCall := { call with grantedCap := .read }

def readClaim : CapClaim :=
  let ticket := mintTicket daemon session readCall 0
  ⟨ticket.ticketId, ticket.grantedCap, ticket.expiryMs, ticket.hostEpoch, ticket.capSig⟩

def operatorGrant : Draft :=
  ⟨info 0, .capability, ACTION_GRANT, (CapabilityAction.grant (peer 1) .readWrite).encode, .Local⟩

def calls : List HostedEvent :=
  [.move (.call (.plain (.ensureMember (info 1) (some readClaim)))),
    .move (.call (.plain (.send operatorGrant))),
    .move (.call (.removeMember (peer 1))),
    .move (.call (.plain (.ensureMember (info 1) (some readClaim)))),
    .move (.call (.plain (.send memberNote))),
    .move (.call (.plain (.send (note []))))]

def firstAdmission : List HostedEvent := calls ++ acts 0 18 ++ acts 4 10 ++ acts 5 10

/-- Granted, removed and admitted again, the member sends before its grant. -/
def readmission : List HostedEvent :=
  calls ++ acts 0 18 ++ acts 1 10 ++ acts 2 8 ++ acts 3 7 ++ acts 4 10 ++ acts 3 9

theorem read_tier_never_writes_first :
    (∀ draft, .written draft ∈
        (trace daemon session blank (created session readCall 0 noDisk) firstAdmission).facts.drop 1 →
      draft.peer.id ≠ peer 1) ∧
      ∀ m client owed, .committed m client owed ∈
          (trace daemon session blank (created session readCall 0 noDisk)
            firstAdmission).facts.drop 1 →
        m.peer.id ≠ peer 1 := by
  have hcalm : ∀ x ∈ firstAdmission, Calm (fun _ => True) x := by decide
  have hdir : noDisk.dir = none := rfl
  have hpeer : readCall.peer = daemon.peerId := rfl
  exact read_tier_never_writes daemon session hpeer 0 hdir blank firstAdmission
    (permitted_of_calm hcalm) [] _ none none [] (by decide +kernel) (by decide) (by decide)
    (by simp [NoneOwed]) (by decide +kernel)

/-- What the operator granted in an earlier membership outlives the removal. -/
theorem readmitted_member_writes :
    (∀ x ∈ readmission, Calm (fun _ => True) x) ∧
      ∃ before held stored owed after,
        (trace daemon session blank (created session readCall 0 noDisk) readmission).facts =
          before ++ .admitted (peer 1) .read held stored owed :: after ∧
        (∀ f ∈ after, Undisturbed (peer 0) (peer 1) f) ∧
        ∃ m owed, m.peer.id = peer 1 ∧ .committed m true owed ∈ after := by
  refine ⟨by decide, (trace daemon session blank (created session readCall 0 noDisk)
    readmission).facts.take 4, some .readWrite, some .readWrite, [],
    (trace daemon session blank (created session readCall 0 noDisk) readmission).facts.drop 5,
    by decide +kernel, by decide +kernel, ?_⟩
  exact ⟨((runHosted daemon session blank (created session readCall 0 noDisk)
    readmission).world.cells 0).session.log.dropLast.getLast (by decide +kernel),
    [⟨3, peer 1, .read, .announced⟩], by decide +kernel, by decide +kernel⟩

end Sample

end Artel.ReadTier
