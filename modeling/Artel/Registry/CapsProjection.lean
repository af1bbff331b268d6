import Artel.Registry.SequencerOutline
import Artel.Session.Keyed
import Artel.Session.Reload
import Artel.Store.Filed

namespace Artel.CapsProjection

open Store Sequencer

variable {ed : Ed25519} (d : Daemon ed) (id : SessionId)

/-- The author's signature holds, where the daemon's own are checked on load. -/
def Authentic (m : SessionMessage) : Prop :=
  d.signingKey.isSome = true → Signing.verifyMessage ed id m m.signature = .ok ()

/-- The capabilities are those of a replay, and the store has the log. -/
structure Sound (c : State) : Prop where
  isLocal : c.session.kind = .Local
  id_eq : c.session.id = id
  numbered : Numbered c.session
  caps : c.session.caps = projectCaps c.session.host c.session.log
  gated : Gated c.session.host c.session.log
  authentic : ∀ m ∈ c.session.log, Authentic d id m
  filed : Filed c.session.host .Local
    (c.session.log ++ (c.writing.map Writing.message).toList) c.disk
  ready : ∀ w ∈ c.writing, Prepared ed c.session w.draft w.message ∧ Authentic d id w.message

section Step

variable {d id} {c : State}

theorem speaks_stamped {owed : List Owed} {draft : Draft} {grant : Option (PeerId × Capability)}
    (h : Speaks d (Draft.Stamped d) owed draft grant) : draft.Stamped d := by
  cases h with
  | client hdraft => exact hdraft
  | grant hx => exact fun _ => rfl

theorem authentic_of_prepareSend (hident : d.Identified) (hid : c.session.id = id)
    {nowMs : UInt64} {draft : Draft} {m : SessionMessage} (hstamp : draft.Stamped d)
    (hprep : prepareSend d c.session nowMs draft = .ok m) : Authentic d id m := by
  intro hsome
  obtain ⟨key, hkey⟩ := Option.isSome_iff_exists.mp hsome
  have hframe := prepareSend_verified hkey hident hstamp hprep
  rw [hid] at hframe
  exact Reload.verifyMessage_of_verifyFrame ed id d.peerId m hframe

theorem Sound.commit (h : Sound d id c) {w : Writing} (hw : c.writing = some w) (t : Trace) :
    Sound d id ⟨commitSend c.session w.message, c.disk, none, t⟩ := by
  obtain ⟨hprep, hauth⟩ := h.ready w hw
  have hnum := numbered_commitSend h.numbered hprep
  have hmem : ∀ m ∈ c.session.log ++ [w.message], m ∈ c.session.log ∨ m = w.message := by simp
  have hfiled := h.filed
  rw [hw] at hfiled
  exact
    { isLocal := h.isLocal
      id_eq := h.id_eq
      numbered := hnum
      caps := by
        rw [commitSend_caps, h.caps]
        exact (projectCaps_append c.session.host hnum.ascending).symm
      gated := h.gated.append h.numbered.ascending h.caps (by rw [hprep.peer]; exact hprep.canWrite)
      authentic := fun m hm => by
        obtain hm | rfl := hmem m hm
        · exact h.authentic m hm
        · exact hauth
      filed := by simpa [commitSend] using hfiled
      ready := fun w hw => by cases hw }

theorem Sound.of_filed (h : Sound d id c) {disk : Disk}
    (hdisk : ∀ log, Filed c.session.host .Local log c.disk →
      Filed c.session.host .Local log disk) (t : Trace) :
    Sound d id { c with disk := disk, trace := t } :=
  { h with filed := hdisk _ h.filed }

theorem sound_step (hident : d.Identified) {c' : State} (h : Sound d id c)
    (hstep : Step d id (Draft.Stamped d) (fun disk disk' => disk'.kept = disk.kept) c c') :
    Sound d id c' := by
  cases hstep with
  | append hfree hprep hspeaks hok =>
    rename_i nowMs draft grant m disk
    have hready : Prepared ed c.session draft m := prepareSend_ok d hprep
    have hfiled := h.filed
    rw [hfree] at hfiled
    obtain ⟨disk', happ, hdisk'⟩ := hfiled.append hready.size
    obtain rfl : disk = disk' := by
      rw [hok] at happ
      exact congrArg Prod.snd happ
    have hauth := authentic_of_prepareSend hident h.id_eq (speaks_stamped hspeaks) hprep
    exact
      { h with
        filed := by simpa using hdisk'
        ready := fun w hw => by
          obtain rfl := Option.some.inj hw
          exact ⟨hready, hauth⟩ }
  | refused hfree hprep hspeaks herr =>
    refine h.of_filed (fun log hlog => ?_) _
    obtain hkept | ⟨e, happ⟩ := herr
    · exact hlog.of_kept hkept
    · exact hlog.append_error happ
  | commit hw => exact h.commit hw _
  | amend members tickets hfree hhost =>
    refine
      { h with
        numbered := numbered_of_log_eq h.numbered rfl rfl
        ready := fun w hw => ?_ }
    rw [Option.mem_def, hfree] at hw
    cases hw
  | storeMembers f =>
    refine h.of_filed (fun log hlog => ?_) _
    obtain ⟨disk', heq, hdisk'⟩ := hlog.updateMembers f
    rwa [heq]
  | storeTickets tickets =>
    refine h.of_filed (fun log hlog => ?_) _
    obtain ⟨disk', heq, hdisk'⟩ := hlog.putTickets tickets
    rwa [heq]
  | fail hfail => exact h.of_filed (fun log hlog => hlog.of_kept hfail) _
  | admission i peer cap hfree hnew hok =>
    refine h.of_filed (fun log hlog => ?_) _
    obtain ⟨disk', heq, hdisk'⟩ := hlog.updateMembers (insert peer)
    rw [addMember, heq] at hok
    cases hok
    exact hdisk'
  | advance i next => exact { h with }

/-- A restart finds the log, perhaps with a last message never acknowledged. -/
theorem sound_restarted (h : Sound d id c) {disk : Disk} (hkept : disk.kept = c.disk.kept) :
    ∃ r disk', Store.load ed id d.signingKey.isSome disk = (.ok r, disk') ∧
      Sound d id (restarted c r disk') := by
  -- whether or not there is such a message, committing it first changes nothing on disk
  obtain ⟨s, hs, hhost, hfiled⟩ : ∃ s : Session, Sound d id ⟨s, c.disk, none, c.trace⟩ ∧
      s.host = c.session.host ∧ Filed s.host .Local s.log disk := by
    cases hw : c.writing with
    | none =>
      have hfiled := h.filed.of_kept hkept
      rw [hw] at hfiled
      refine ⟨c.session, ?_, rfl, by simpa using hfiled⟩
      rw [← hw]
      exact h
    | some w =>
      have hfiled := h.filed.of_kept hkept
      rw [hw] at hfiled
      exact ⟨commitSend c.session w.message, h.commit hw _, rfl, by simpa [commitSend] using hfiled⟩
  obtain ⟨r, disk', hload, hid, hhost', hlocal, hlog, hhead, hdisk'⟩ :=
    hfiled.load ed id d.signingKey.isSome hs.numbered.size fun hv m hm => hs.authentic m hm hv
  refine ⟨r, disk', hload, ?_⟩
  constructor
  · exact hlocal
  · exact hid
  · refine ⟨?_, ?_, ?_⟩ <;> simp only [restarted, Session.fromRecord, hlog]
    · exact hs.numbered.ascending
    · exact hhead
    · exact hs.numbered.size
  · rfl
  · simp only [restarted, Session.fromRecord, hhost', hlog]
    exact hs.gated
  · simp only [restarted, Session.fromRecord, hlog]
    exact hs.authentic
  · simp only [restarted, Session.fromRecord, hhost', hlog]
    simpa using hdisk'
  · intro w hw
    cases hw

end Step

theorem sound_created (call : HostCall) (floor : UInt64) {disk : Disk} (hdir : disk.dir = none) :
    Sound d id ⟨((created id call floor disk).cells 0).session, (created id call floor disk).disk,
      none, ⟨[], []⟩⟩ := by
  obtain ⟨disk', hcreate, hfiled⟩ :=
    filed_create hdir (createdSession id call floor).record rfl rfl
  have hsession : ((created id call floor disk).cells 0).session = createdSession id call floor := rfl
  have hdisk : (created id call floor disk).disk = disk' := congrArg Prod.snd hcreate
  rw [hsession, hdisk]
  exact
    { isLocal := rfl
      id_eq := rfl
      numbered := numbered_createdSession id call floor
      caps := rfl
      gated := gated_nil _
      authentic := fun m hm => by cases hm
      filed := hfiled
      ready := fun w hw => by cases hw }

/-- In every run the capabilities are those of the log, and so is who may write. -/
theorem caps_eq_projectCaps (hident : d.Identified) (call : HostCall) (floor : UInt64) {disk : Disk}
    (hdir : disk.dir = none) (blank : Session) (hs : List HostedEvent)
    (hperm : Permitted d id blank (Draft.Stamped d) (fun disk disk' => disk'.kept = disk.kept)
      (fun disk disk' => disk'.kept = disk.kept) (created id call floor disk) hs) :
    ∃ h session, (runHosted d id blank (created id call floor disk) hs).world.sessions = some h ∧
      ((runHosted d id blank (created id call floor disk) hs).world.cells h).session = session ∧
      session.caps = projectCaps session.host session.log ∧
      session.caps session.host = some .readWrite ∧
      ∀ before m after, session.log = before ++ m :: after → m.peer.id ≠ session.host →
        lastAction session.host m.peer.id before = some (.grant m.peer.id .readWrite) := by
  have hclosed : Closed d id (Draft.Stamped d) (fun disk disk' => disk'.kept = disk.kept)
      (Sound d id) :=
    ⟨fun c hc => hc.isLocal, fun c c' hc hstep => sound_step hident hc hstep⟩
  obtain ⟨hentry, w, hw⟩ := of_history hclosed (fun c disk hc hkept => sound_restarted hc hkept) rfl
    (sound_created d id call floor hdir) hperm
  refine ⟨0, _, hentry, rfl, hw.caps, ?_, hw.gated⟩
  rw [hw.caps]
  exact projectCaps_host _ _

section Sample

open Sample

/-- A member is admitted and granted `ReadWrite`, and sends. -/
def memberSends : List HostedEvent :=
  [.move (.call (.plain (.ensureMember (info 1) none))), .move (.call (.plain (.send memberNote)))] ++
    acts 0 16 ++ acts 1 10

theorem caps_eq_projectCaps_member :
    (∃ h s, (runHosted daemon session blank (created session call 0 noDisk)
        memberSends).world.sessions = some h ∧
      ((runHosted daemon session blank (created session call 0 noDisk) memberSends).world.cells
        h).session = s ∧
      s.caps = projectCaps s.host s.log ∧ s.caps s.host = some .readWrite ∧
      ∀ before m after, s.log = before ++ m :: after → m.peer.id ≠ s.host →
        lastAction s.host m.peer.id before = some (.grant m.peer.id .readWrite)) ∧
      ((runHosted daemon session blank (created session call 0 noDisk) memberSends).world.cells
        0).session.log.map SessionMessage.kind = [.capability, .chat] := by
  have hcalm : ∀ x ∈ memberSends, Calm (Draft.Stamped daemon) x := by decide
  have hdir : noDisk.dir = none := rfl
  refine ⟨?_, by decide +kernel⟩
  exact caps_eq_projectCaps daemon session identified call 0 hdir blank memberSends
    (permitted_of_calm hcalm)

end Sample

abbrev Unharmed (disk disk' : Disk) : Prop := disk'.kept = disk.kept

/-- What the sequencer's steps and restarts reach. -/
inductive Reached (start : State) : State → Prop
  | start : Reached start start
  | step {c c' : State} (h : Reached start c) (hstep : Step d id (Draft.Stamped d) Unharmed c c') :
      Reached start c'
  | restart {c : State} {r : SessionRecord} {disk disk' : Disk} (h : Reached start c)
      (hdisk : Unharmed c.disk disk)
      (hload : Store.load ed id d.signingKey.isSome disk = (.ok r, disk')) :
      Reached start (restarted c r disk')

def started (s : World) : State := ⟨(s.cells 0).session, s.disk, none, ⟨[], []⟩⟩

/-- Every history of calls, failures and restarts is a run of the sequencer. -/
theorem histories_refine_sequencer (hident : d.Identified) (call : HostCall) (floor : UInt64)
    {disk : Disk} (hdir : disk.dir = none) (blank : Session) (hs : List HostedEvent)
    (hperm : Permitted d id blank (Draft.Stamped d) Unharmed Unharmed (created id call floor disk)
      hs) :
    let s := created id call floor disk
    let world := (runHosted d id blank s hs).world
    world.sessions = some 0 ∧ ∃ writing, Reached d id (started s)
      ⟨(world.cells 0).session, world.disk, writing, trace d id blank s hs⟩ := by
  have hclosed : Closed d id (Draft.Stamped d) Unharmed fun c =>
      Sound d id c ∧ Reached d id (started (created id call floor disk)) c :=
    ⟨fun c hc => hc.1.isLocal, fun c c' hc hstep => ⟨sound_step hident hc.1 hstep, hc.2.step hstep⟩⟩
  obtain ⟨hentry, w, hw⟩ := of_history hclosed (fun c disk hc hkept => by
    obtain ⟨r, disk', hload, hr⟩ := sound_restarted hc.1 hkept
    exact ⟨r, disk', hload, hr, hc.2.restart hkept hload⟩) rfl
    ⟨sound_created d id call floor hdir, .start⟩ hperm
  exact ⟨hentry, w, hw.2⟩

section Sample

open Sample

theorem histories_refine_sequencer_member :
    let world := (runHosted daemon session blank (created session call 0 noDisk) memberSends).world
    world.sessions = some 0 ∧
      (world.cells 0).session.log.map SessionMessage.kind = [.capability, .chat] := by
  have hcalm : ∀ x ∈ memberSends, Calm (Draft.Stamped daemon) x := by decide
  have hdir : noDisk.dir = none := rfl
  refine ⟨?_, by decide +kernel⟩
  exact (histories_refine_sequencer daemon session identified call 0 hdir blank memberSends
    (permitted_of_calm hcalm)).1

end Sample

end Artel.CapsProjection
