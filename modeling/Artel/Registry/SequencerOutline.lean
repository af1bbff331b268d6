import Artel.Registry.SequencerRefinement

namespace Artel.Sequencer

open Store Registry Artel.Fiber

variable {ed : Ed25519} (d : Daemon ed) (id : SessionId)

/-- A store operation that fails leaves behind what `F` allows. -/
def Guard (F : Disk → Disk → Prop) (_ : Label) (e : Env) (s : World × Trace) : Prop :=
  ∀ err disk, e.fault = some (err, disk) → F s.1.disk disk

structure Closed (A : Draft → Prop) (F : Disk → Disk → Prop) (P : State → Prop) : Prop where
  isLocal : ∀ c, P c → c.session.kind = .Local
  step : ∀ c c', P c → Step d id A F c c' → P c'

/-- An outline of a part of the call `o` with index `i`, with its notes. -/
abbrev Outline {α : Type} (F : Disk → Disk → Prop) (P : State → Prop) (i : ℕ) (o : HostedCall)
    (Q : α → View → Prop) (a : Async α) (v : View) : Prop :=
  Follows (Inv P) (Guard F) i Q (a.observe (note d id i o)) v

variable {A : Draft → Prop} {F : Disk → Disk → Prop} {P : State → Prop} {i : ℕ} {o : HostedCall}
  {owed : Option (PeerId × Capability × Stage)} {x : Session}

section Primitives

theorem outline_silent {α : Type} {l : Label} {ready : Env → World → Bool} {f : Env → World → α × World}
    {Q : α → View → Prop} {v : View} (hl : silent l = true)
    (h : ∀ s t V e, Inv P (s, t) V → Inv P ((f e s).2, t) V ∧ Q (f e s).1 v) :
    Outline d id F P i o Q (waitFor l ready f) v := by
  apply Follows.waitForObserve
  intro s t V e hI hv _ _
  obtain ⟨hI', hQ⟩ := h s t V e hI
  rw [note_silent d id i hl]
  refine ⟨v, ?_, hQ⟩
  rwa [← hv, Function.update_eq_self]

theorem outline_lookup (v : View) :
    Outline d id F P i o (fun r w => r = some 0 ∧ w = v) lookup v := by
  apply outline_silent d id rfl
  intro s t V e hI
  refine ⟨hI, ?_, rfl⟩
  obtain ⟨w, hb, -⟩ := hI
  exact hb.entry

theorem outline_clock (v : View) : Outline d id F P i o (fun _ w => w = v) clock v :=
  outline_silent d id rfl fun _ _ _ _ hI => ⟨hI, rfl⟩

theorem outline_publish (m : SessionMessage) (v : View) :
    Outline d id F P i o (fun _ w => w = v) (publish m) v :=
  outline_silent d id rfl fun _ _ _ _ hI => ⟨hI.elsewhere rfl rfl rfl rfl, rfl⟩

variable {s : World}

theorem Inv.emit {t : Trace} {V : ℕ → View} (h : Inv P (s, t) V) (event : Event) :
    Inv P (s.modify 0 fun c => { c with feed := c.feed ++ [event] }, t) V := by
  refine h.elsewhere rfl ?_ ?_ rfl
  · rw [World.modify_cells_self]
  · rw [World.modify_cells_self]

theorem outline_emit {event : Event} (hevent : silent (.emit 0 event) = true) (v : View) :
    Outline d id F P i o (fun _ w => w = v) (emit 0 event) v :=
  outline_silent d id hevent fun _ _ _ _ hI => ⟨hI.emit event, rfl⟩

theorem outline_lock (hP : Closed d id A F P) (owed : Option (PeerId × Capability × Stage)) :
    Outline d id F P i o (fun s w => s.kind = .Local ∧ w = ⟨.held s, owed⟩) (lock i 0)
      ⟨.free, owed⟩ := by
  apply Follows.waitForObserve
  intro s t V e hI hv hready _
  rw [note_silent d id i rfl]
  have hlocal : (s.cells 0).session.kind = .Local := by
    obtain ⟨w, -, hstate⟩ := hI
    exact hP.isLocal _ hstate
  exact ⟨_, hI.lock hv (Option.isNone_iff_eq_none.mp hready), hlocal, rfl⟩

def Fits (o : HostedCall) (owed : Option (PeerId × Capability × Stage)) : Prop :=
  owed = none ∨ ∃ peer claim, o = .plain (.ensureMember peer claim)

theorem note_unlock (hfits : Fits o owed) (e : Env) (s s' : World) (t : Trace) :
    note d id i o (.unlock 0) e s s' t = t.advance i Stage.released ∨
      owed = none ∧ note d id i o (.unlock 0) e s s' t = t := by
  obtain rfl | ⟨peer, claim, rfl⟩ := hfits
  · cases o with
    | plain call =>
      cases call with
      | ensureMember peer claim => exact .inl rfl
      | _ => exact .inr ⟨rfl, rfl⟩
    | _ => exact .inr ⟨rfl, rfl⟩
  · exact .inl rfl

theorem outline_unlock (hP : Closed d id A F P) (hfits : Fits o owed) :
    Outline d id F P i o (fun _ w => w = ⟨.free, moved Stage.released owed⟩) (unlock 0)
      ⟨.held x, owed⟩ := by
  apply Follows.onceObserve
  intro s t V e hI hv _
  refine ⟨_, ?_, rfl⟩
  have hstate := hI.state hv
  have hbase := hI
  obtain ⟨w, hb, -⟩ := hbase
  obtain hnote | ⟨rfl, hnote⟩ := note_unlock d id (i := i) hfits e s
    (s.modify 0 fun c => { c with holder := none }) t
  · rw [hnote]
    exact hI.unlock hv (debts_advance hb Stage.released (by rw [hv]))
      (hP.step _ _ hstate (.advance i Stage.released))
  · rw [hnote]
    exact hI.unlock hv (debts_keep hb (by rw [hv]; rfl)) hstate

theorem outline_announce (hP : Closed d id A F P) {peer peer' : PeerInfo} {claim : Option CapClaim}
    {p : PeerId} {cap : Capability} {stage : Stage} :
    Outline d id F P i (.plain (.ensureMember peer claim))
      (fun _ w => w = ⟨.free, some (p, cap, .announced)⟩) (emit 0 (.peerJoined peer'))
      ⟨.free, some (p, cap, stage)⟩ := by
  apply Follows.onceObserve
  intro s t V e hI hv _
  have hfeed := hI.emit (.peerJoined peer')
  obtain ⟨w, hb, hstate⟩ := hfeed
  refine ⟨_, ⟨w, hb.update rfl (Knows.of_free rfl) (fun j _ => hb.knows j)
    (debts_advance hb (fun _ => some .announced) (by rw [hv]; rfl)) (writing_keep hb ?_ ?_), ?_⟩, rfl⟩
  · simp [hv]
  · simp
  · exact hP.step _ _ hstate (.advance i fun _ => some .announced)

/-- What a call speaks for: its own draft, or the grant it owes. -/
inductive Voice (A : Draft → Prop) : HostedCall → Option (PeerId × Capability × Stage) → Draft →
    Option (PeerId × Capability) → Prop
  | client {draft : Draft} (hdraft : A draft) : Voice A (.plain (.send draft)) none draft none
  | grant (peer : PeerInfo) (claim : Option CapClaim) (stage : Stage) :
    Voice A (.plain (.ensureMember peer claim)) (some (peer.id, tier claim, stage))
      (grantDraft d peer.id (tier claim)) (some (peer.id, tier claim))

variable {d id} {draft : Draft} {grant : Option (PeerId × Capability)}

section

variable (h : Voice d A o owed draft grant)
include h

theorem Voice.fits : Fits o owed := by
  cases h with
  | client hdraft => exact .inl rfl
  | grant peer claim stage => exact .inr ⟨peer, claim, rfl⟩

theorem Voice.owes {t : Trace} {V : ℕ → View} {w : Option Writing}
    (hb : Base s t V w) (hv : (V i).owed = owed) :
    Speaks d A t.owed draft grant := by
  cases h with
  | client hdraft => exact .client hdraft
  | grant peer claim stage =>
    have hx := (hb.debts ⟨i, peer.id, tier claim, stage⟩).mpr hv
    exact Speaks.grant hx

theorem Voice.note_write {t : Trace} {V : ℕ → View} {w : Option Writing}
    (hb : Base s t V w) (hv : (V i).owed = owed) (e : Env)
    (s' : World) : note d id i o (.write 0) e s s' t = t.write draft grant := by
  cases h with
  | client hdraft => rfl
  | grant peer claim stage =>
    have hx := (hb.debts ⟨i, peer.id, tier claim, stage⟩).mpr hv
    have hany : (t.owed.any fun x => x.call = i) = true :=
      List.any_eq_true.mpr ⟨_, hx, by simp⟩
    simp only [note, noteAdmission, hany, if_true]
    rfl

end

variable {m : SessionMessage}

theorem newMessage_append {old new : Session} (h : new.log = old.log ++ [m]) :
    newMessage old new = some m := by
  simp [newMessage, h]

theorem newMessage_same {old new : Session} (h : new.log = old.log) : newMessage old new = none := by
  simp [newMessage, h]

theorem Voice.note_update (h : Voice d A o owed draft grant) (e : Env) {s' : World}
    (hlog : (s'.cells 0).session.log = (s.cells 0).session.log ++ [m]) (t : Trace) :
    note d id i o (.update 0) e s s' t = t.commit grant.isNone (some m) := by
  cases h <;> simp only [note, noteAdmission, newMessage_append hlog] <;> rfl

theorem Trace.write_owed (t : Trace) : (t.write draft grant).owed = t.owed := by
  cases grant <;> rfl

theorem Trace.commit_owed (t : Trace) (client : Bool) (m : Option SessionMessage) :
    (t.commit client m).owed = t.owed := by
  cases m <;> rfl

section

variable (hP : Closed d id A F P)
include hP

theorem outline_append (hvoice : Voice d A o owed draft grant)
    {nowMs : UInt64} (hprep : prepareSend d x nowMs draft = .ok m) :
    Outline d id F P i o
      (fun r w => (r = .ok () ∧ w = ⟨.wrote x ⟨draft, grant, m⟩, owed⟩) ∨
        (∃ e, r = .error e) ∧ w = ⟨.held x, owed⟩)
      (store (.write 0) (append none m)) ⟨.held x, owed⟩ := by
  apply Follows.onceObserve
  intro s t V e hI hv hguard
  have hstate := hI.state hv
  have hbase := hI
  obtain ⟨w, hb, -⟩ := hbase
  have hv' : (V i).owed = owed := by rw [hv]
  have hspeaks := hvoice.owes hb hv'
  rw [hvoice.note_write hb hv']
  have howed : (t.write draft grant).owed = t.owed := Trace.write_owed t
  have hrefuse : ∀ disk, (F s.disk disk ∨ ∃ e, append none m s.disk = (.error e, disk)) →
      Inv P ({ s with disk := disk }, t.write draft grant) (Function.update V i ⟨.held x, owed⟩) := by
    intro disk herr
    refine hI.holding hv (by simp) rfl rfl (hI.session_eq hv) rfl ?_ ?_
    · rw [howed]
      exact debts_keep hb hv'.symm
    · exact hP.step _ _ hstate (.refused rfl hprep hspeaks herr)
  cases hf : e.fault with
  | some fault =>
    obtain ⟨err, disk⟩ := fault
    exact ⟨_, hrefuse disk (.inl (hguard err disk hf)), .inr ⟨⟨err, rfl⟩, rfl⟩⟩
  | none =>
    rcases happ : append none m s.disk with ⟨r, disk⟩
    cases r with
    | error err => exact ⟨_, hrefuse disk (.inr ⟨err, happ⟩), .inr ⟨⟨err, rfl⟩, rfl⟩⟩
    | ok u =>
      refine ⟨_, hI.wrote hv howed ?_, .inl ⟨rfl, rfl⟩⟩
      exact hP.step _ _ hstate (.append rfl hprep hspeaks happ)

theorem outline_commit (hvoice : Voice d A o owed draft grant)
    :
    Outline d id F P i o (fun _ w => w = ⟨.held (commitSend x m), owed⟩)
      (update 0 fun s => commitSend s m) ⟨.wrote x ⟨draft, grant, m⟩, owed⟩ := by
  apply Follows.onceObserve
  intro s t V e hI hv _
  obtain ⟨hx, hstate⟩ := hI.of_wrote hv
  have hbase := hI
  obtain ⟨w, hb, -⟩ := hbase
  rw [hvoice.note_update e (m := m) (by rw [World.modify_cells_self]; rfl)]
  refine ⟨_, hI.holding hv (by simp) rfl ?_ ?_ rfl ?_ ?_, rfl⟩
  · rw [World.modify_cells_self]
  · rw [World.modify_cells_self, hx]
  · rw [Trace.commit_owed]
    exact debts_keep hb (by rw [hv])
  · have hnext := hP.step _ _ hstate (.commit (w := ⟨draft, grant, m⟩) rfl)
    exact hnext

theorem outline_amend {f : Session → Session}
    (hnote : ∀ e s s' t, (s'.cells 0).session.log = (s.cells 0).session.log →
      note d id i o (.update 0) e s s' t = t)
    (hf : ∃ members tickets, f x = { x with members := members, tickets := tickets } ∧
      (x.host ∈ x.members → x.host ∈ members)) :
    Outline d id F P i o (fun _ w => w = ⟨.held (f x), owed⟩) (update 0 f) ⟨.held x, owed⟩ := by
  apply Follows.onceObserve
  intro s t V e hI hv _
  have hx := hI.session_eq hv
  have hstate := hI.state hv
  have hbase := hI
  obtain ⟨w, hb, -⟩ := hbase
  obtain ⟨members, tickets, hfx, hhost⟩ := hf
  rw [hnote e s _ t (by rw [World.modify_cells_self, hx, hfx])]
  refine ⟨_, hI.holding hv (by simp) rfl ?_ ?_ rfl ?_ ?_, rfl⟩
  · rw [World.modify_cells_self]
  · rw [World.modify_cells_self, hx]
  · exact debts_keep hb (by rw [hv])
  · rw [hfx]
    exact hP.step _ _ hstate (.amend members tickets rfl hhost)

theorem outline_write {op : Disk → IoResult Unit}
    (hop : ∀ c, P c → P { c with disk := (op c.disk).2 })
    (hnote : ∀ e s s' t V w, Base s t V w → (V i).owed = owed →
      note d id i o (.write 0) e s s' t = t) :
    Outline d id F P i o (fun _ w => w = ⟨.held x, owed⟩) (store (.write 0) op) ⟨.held x, owed⟩ := by
  apply Follows.onceObserve
  intro s t V e hI hv hguard
  have hstate := hI.state hv
  have hbase := hI
  obtain ⟨w, hb, -⟩ := hbase
  rw [hnote e s _ t V w hb (by rw [hv])]
  have hkeep : ∀ disk, P ⟨x, disk, none, t⟩ →
      Inv P ({ s with disk := disk }, t) (Function.update V i ⟨.held x, owed⟩) := by
    intro disk hdisk
    exact hI.holding hv (by simp) rfl rfl (hI.session_eq hv) rfl (debts_keep hb (by rw [hv])) hdisk
  cases hf : e.fault with
  | some fault =>
    obtain ⟨err, disk⟩ := fault
    exact ⟨_, hkeep disk (hP.step _ _ hstate (.fail (hguard err disk hf))), rfl⟩
  | none => exact ⟨_, hkeep _ (hop _ hstate), rfl⟩

theorem outline_admission {peer : PeerInfo} {claim : Option CapClaim}
    (hnew : peer.id ∉ x.members) :
    Outline d id F P i (.plain (.ensureMember peer claim))
      (fun r w => (r = .ok () ∧ w = ⟨.held x, some (peer.id, tier claim, .admitted)⟩) ∨
        (∃ e, r = .error e) ∧ w = ⟨.held x, none⟩)
      (store (.write 0) (addMember peer.id)) ⟨.held x, none⟩ := by
  apply Follows.onceObserve
  intro s t V e hI hv hguard
  have hx := hI.session_eq hv
  have hstate := hI.state hv
  have hbase := hI
  obtain ⟨w, hb, -⟩ := hbase
  have hmine : (t.owed.any fun y => y.call = i) = false := by
    rw [List.any_eq_false]
    intro y hy hcall
    have hyv := (hb.debts y).mp hy
    rw [of_decide_eq_true hcall, hv] at hyv
    cases hyv
  have hkeep : ∀ disk, P ⟨x, disk, none, t⟩ →
      Inv P ({ s with disk := disk }, t) (Function.update V i ⟨.held x, none⟩) := by
    intro disk hdisk
    exact hI.holding hv (by simp) rfl rfl hx rfl (debts_keep hb (by rw [hv])) hdisk
  cases hf : e.fault with
  | some fault =>
    obtain ⟨err, disk⟩ := fault
    simp only [note, noteAdmission, hmine, hf, Option.isNone_some, Bool.false_eq_true, false_and,
      if_false]
    exact ⟨_, hkeep disk (hP.step _ _ hstate (.fail (hguard err disk hf))), .inr ⟨⟨err, rfl⟩, rfl⟩⟩
  | none =>
    rcases hadd : addMember peer.id s.disk with ⟨r, disk⟩
    cases r with
    | error err =>
      simp only [note, noteAdmission, hmine, hf, hadd, Bool.false_eq_true, reduceCtorEq, and_false,
        if_false]
      have hdisk : disk = (updateMembers (insert peer.id) s.disk).2 := by
        rw [← addMember, hadd]
      refine ⟨_, hkeep disk ?_, .inr ⟨⟨err, rfl⟩, rfl⟩⟩
      rw [hdisk]
      exact hP.step _ _ hstate (.storeMembers _)
    | ok u =>
      simp only [note, noteAdmission, hmine, hf, hadd, Bool.false_eq_true, Option.isNone_none,
        and_self, if_true, if_false, hx]
      refine ⟨⟨.held x, some (peer.id, tier claim, .admitted)⟩, ?_, .inl ⟨trivial, rfl⟩⟩
      refine hI.holding hv (by simp) rfl rfl hx rfl (debts_admission hb (by rw [hv]) rfl) ?_
      exact hP.step _ _ hstate (.admission i peer.id (tier claim) rfl hnew hadd)

end

end Primitives

section Calls

variable {d id} {draft : Draft} {grant : Option (PeerId × Capability)}

theorem Voice.released (h : Voice d A o owed draft grant)
    (hstage : ∀ p cap, owed ≠ some (p, cap, .checked)) :
    Voice d A o (moved Stage.released owed) draft grant := by
  cases h with
  | client hdraft => exact .client hdraft
  | grant peer claim stage =>
    cases stage with
    | admitted => exact .grant peer claim .admitted
    | announced => exact .grant peer claim .checked
    | checked => exact absurd rfl (hstage peer.id (tier claim))

theorem outline_sendLocal (hP : Closed d id A F P) (hvoice : Voice d A o owed draft grant) :
    Outline d id F P i o (fun _ w => w.lock = .free) (sendLocal d i 0 draft) ⟨.free, owed⟩ := by
  have hunlock : ∀ (x : Session) (r : Outcome), Outline d id F P i o (fun _ w => w.lock = .free)
      ((unlock 0).bind fun _ => .ret r) ⟨.held x, owed⟩ := by
    intro x r
    apply (outline_unlock d id hP hvoice.fits).bindObserve
    rintro _ w rfl
    exact rfl
  apply (outline_lock d id hP owed).bindObserve
  rintro x w ⟨-, rfl⟩
  apply (outline_clock d id _).bindObserve
  rintro nowMs w rfl
  cases hprep : prepareSend d x nowMs draft with
  | error e => exact hunlock x _
  | ok m =>
    apply (outline_append hP hvoice hprep).bindObserve
    rintro r w (⟨rfl, rfl⟩ | ⟨⟨e, rfl⟩, rfl⟩)
    · apply (outline_commit hP hvoice).bindObserve
      rintro _ w rfl
      apply (outline_unlock d id hP hvoice.fits).bindObserve
      rintro _ w rfl
      apply (outline_emit d id rfl _).bindObserve
      rintro _ w rfl
      split
      · exact rfl
      · apply (outline_publish d id m _).bindObserve
        rintro _ w rfl
        exact rfl
    · exact hunlock x _

theorem outline_send (hP : Closed d id A F P) (hvoice : Voice d A o owed draft grant)
    (hstage : ∀ p cap, owed ≠ some (p, cap, .checked)) :
    Outline d id F P i o (fun _ w => w.lock = .free) (send d id i draft) ⟨.free, owed⟩ := by
  unfold send
  split
  · exact rfl
  apply (outline_lookup d id _).bindObserve
  rintro r w ⟨rfl, rfl⟩
  apply (outline_lock d id hP owed).bindObserve
  rintro x w ⟨hlocal, rfl⟩
  apply (outline_unlock d id hP hvoice.fits).bindObserve
  rintro _ w rfl
  have hremote : x.kind ≠ .Remote := by
    rw [hlocal]
    decide
  split
  · exact rfl
  · exact outline_sendLocal hP (hvoice.released hstage)

theorem note_update_same (peer : PeerInfo) (claim : Option CapClaim) (e : Env) (s s' : World)
    (t : Trace) (hlog : (s'.cells 0).session.log = (s.cells 0).session.log) :
    note d id i (.plain (.ensureMember peer claim)) (.update 0) e s s' t = t := by
  simp only [note, noteAdmission, newMessage_same hlog, Trace.commit]

section

variable (hP : Closed d id A F P)
include hP

theorem outline_noteUse {peer : PeerInfo} {claim : Option CapClaim}
    {p : PeerId} {cap : Capability} {stage : Stage} (tickets : Option (List TicketEntry)) :
    Outline d id F P i (.plain (.ensureMember peer claim))
      (fun _ w => ∃ x, w = ⟨.held x, some (p, cap, stage)⟩) (noteUse 0 tickets)
      ⟨.held x, some (p, cap, stage)⟩ := by
  unfold noteUse
  cases tickets with
  | none => exact ⟨x, rfl⟩
  | some tickets =>
    apply (outline_amend hP (note_update_same peer claim) ⟨x.members, tickets, rfl, fun h => h⟩).bindObserve
    rintro _ w rfl
    refine (outline_write hP (fun c hc => hP.step _ _ hc (.storeTickets tickets)) ?_).bindObserve ?_
    · intro e s s' t V w hb hv
      have hx := (hb.debts ⟨i, p, cap, stage⟩).mpr hv
      have hany : (t.owed.any fun x => x.call = i) = true :=
        List.any_eq_true.mpr ⟨_, hx, by simp⟩
      simp only [note, noteAdmission, hany, if_true]
    · rintro _ w rfl
      exact ⟨_, rfl⟩

theorem outline_ensureMember (peer : PeerInfo) (claim : Option CapClaim) :
    Outline d id F P i (.plain (.ensureMember peer claim)) (fun _ w => w.lock = .free)
      (ensureMember d id i peer claim) View.idle := by
  have hfits : ∀ owed, Fits (.plain (.ensureMember peer claim)) owed :=
    fun _ => .inr ⟨peer, claim, rfl⟩
  have hunlock : ∀ (x : Session) (r : Outcome),
      Outline d id F P i (.plain (.ensureMember peer claim)) (fun _ w => w.lock = .free)
        ((unlock 0).bind fun _ => .ret r) ⟨.held x, none⟩ := by
    intro x r
    apply (outline_unlock d id hP (hfits _)).bindObserve
    rintro _ w rfl
    exact rfl
  apply (outline_clock d id _).bindObserve
  rintro nowMs w rfl
  cases claim.elim (.ok ()) (verifyClaim d id nowMs) with
  | error e => exact rfl
  | ok u =>
    apply (outline_lookup d id _).bindObserve
    rintro r w ⟨rfl, rfl⟩
    apply (outline_lock d id hP none).bindObserve
    rintro x w ⟨hlocal, rfl⟩
    split
    · exact hunlock x _
    split
    · exact hunlock x _
    rename_i hnew
    apply (outline_admission hP hnew).bindObserve
    rintro r w (⟨rfl, rfl⟩ | ⟨⟨e, rfl⟩, rfl⟩)
    · refine (outline_amend hP (note_update_same peer claim) ⟨insert peer.id x.members, x.tickets, rfl,
        fun h => Finset.mem_insert_of_mem h⟩).bindObserve ?_
      rintro _ w rfl
      apply (outline_noteUse hP _).bindObserve
      rintro _ w ⟨x', rfl⟩
      apply (outline_unlock d id hP (hfits _)).bindObserve
      rintro _ w rfl
      apply (outline_announce d id hP).bindObserve
      rintro _ w rfl
      refine Follows.bindObserve (outline_send hP (.grant peer claim .announced) ?_) ?_
      · simp
      · intro r w hw
        exact hw
    · exact hunlock x _

theorem outline_lockLocalSession :
    Outline d id F P i o (fun r w => ∃ x, r = .ok (0, x) ∧ w = ⟨.held x, none⟩)
      (lockLocalSession id i) View.idle := by
  apply (outline_lookup d id _).bindObserve
  rintro r w ⟨rfl, rfl⟩
  apply (outline_lock d id hP none).bindObserve
  rintro x w ⟨hlocal, rfl⟩
  rw [if_neg (not_not.mpr hlocal)]
  exact ⟨x, rfl, rfl⟩

theorem outline_removeMember (peer : PeerId) :
    Outline d id F P i (.removeMember peer) (fun _ w => w.lock = .free)
      (Registry.removeMember id i peer) View.idle := by
  have hunlock : ∀ (x : Session) (r : Answer),
      Outline d id F P i (.removeMember peer) (fun _ w => w.lock = .free)
        ((unlock 0).bind fun _ => .ret r) ⟨.held x, none⟩ := by
    intro x r
    apply (outline_unlock d id hP (.inl rfl)).bindObserve
    rintro _ w rfl
    exact rfl
  apply (outline_lockLocalSession hP).bindObserve
  rintro r w ⟨x, rfl, rfl⟩
  dsimp only
  split
  · exact hunlock x _
  rename_i hother
  refine (outline_write hP (fun c hc => hP.step _ _ hc (.storeMembers _))
    fun _ _ _ _ _ _ _ _ => rfl).bindObserve ?_
  rintro r w rfl
  cases r with
  | error e => exact hunlock x _
  | ok u =>
    refine (outline_amend hP (fun _ _ _ _ _ => rfl) ⟨x.members.erase peer, x.tickets, rfl,
      fun h => Finset.mem_erase.mpr ⟨fun heq => hother (.inl heq.symm), h⟩⟩).bindObserve ?_
    rintro _ w rfl
    apply (outline_emit d id rfl _).bindObserve
    rintro _ w rfl
    exact hunlock _ _

end

/-- The calls of a session that stays hosted: sends, admissions and removals. -/
def Member (A : Draft → Prop) : HostedCall → Prop
  | .plain (.send draft) => A draft
  | .plain (.ensureMember _ _) | .removeMember _ => True
  | _ => False

instance (A : Draft → Prop) [DecidablePred A] : DecidablePred (Member A)
  | .plain (.send draft) => inferInstanceAs (Decidable (A draft))
  | .plain (.ensureMember _ _) | .removeMember _ => .isTrue trivial
  | .plain (.host _ _) | .plain (.join _ _) | .plain (.leave _) | .plain .hostClosedSession
  | .plain (.advanceHostEpochWatermark _) | .plain (.subscribe _) | .plain (.inbound _ _)
  | .plain (.deliver _ _) | .issueTicket _ _ _ | .revokeTicket _ => .isFalse not_false

theorem outline_body (hP : Closed d id A F P) (ho : Member A o) :
    Outline d id F P i o (fun _ w => w.lock = .free) (o.body d id i) View.idle := by
  cases o with
  | plain call =>
    cases call with
    | send draft =>
      refine Follows.bindObserve (outline_send hP (.client ho) (by simp)) ?_
      exact fun _ _ hw => hw
    | ensureMember peer claim =>
      refine Follows.bindObserve (outline_ensureMember hP peer claim) ?_
      exact fun _ _ hw => hw
    | _ => exact ho.elim
  | removeMember peer => exact outline_removeMember hP peer
  | _ => exact ho.elim

end Calls

section Runs

def Trace.cut (t : Trace) : Trace := { t with owed := [] }

variable (blank : Session)

abbrev notedBody : ℕ → HostedCall → Fiber (World × Trace) Env Label Answer :=
  Pool.observed (note d id) (HostedCall.body d id)

abbrev notedReboot : Disk → World × Trace → World × Trace :=
  Pool.rebootObserved (fun disk _ => Registry.load d id blank disk) Trace.cut

abbrev notedStart (s : World) : Pool HostedCall (World × Trace) Env Label Answer :=
  ⟨(s, ⟨[], []⟩), []⟩

def trace (s : World) (hs : List HostedEvent) : Trace :=
  (Pool.history (notedBody d id) (notedReboot d id blank) (notedStart s) hs).world.2

/-- Calls with drafts in `A`; failed stores leave what `F` allows, crashes `D`. -/
abbrev Permitted (A : Draft → Prop) (F D : Disk → Disk → Prop) (s : World) (hs : List HostedEvent) : Prop :=
  Along (Pool.happen (HostedCall.body d id) fun disk _ => Registry.load d id blank disk)
    (Pool.Allows (Member A) (fun _ e s => ∀ err disk, e.fault = some (err, disk) → F s.disk disk)
      fun disk s => D s.disk disk) ⟨s, []⟩ hs

variable {d id blank} {D : Disk → Disk → Prop}

theorem inv_reboot {t : Trace} {disk disk' : Disk} {r : SessionRecord}
    (hload : Store.load ed id d.signingKey.isSome disk = (.ok r, disk'))
    (hr : P ⟨.fromRecord r, disk', none, t.cut⟩) :
    Inv P (Registry.load d id blank disk, t.cut) fun _ => View.idle := by
  have hworld : Registry.load d id blank disk = (World.empty blank disk').insert (.fromRecord r) := by
    rw [Registry.load, hload]
  rw [hworld]
  refine ⟨none, ⟨rfl, fun i => Knows.of_free rfl, ?_, ?_⟩, hr⟩
  · simp [Trace.cut, View.idle]
  · simp [View.idle]

/-- What the sequencer's steps and restarts keep holds after every history. -/
theorem of_history (hP : Closed d id A F P)
    (hreboot : ∀ c disk, P c → D c.disk disk → ∃ r disk',
      Store.load ed id d.signingKey.isSome disk = (.ok r, disk') ∧ P (restarted c r disk'))
    {s : World} (hentry : s.sessions = some 0) (hstart : P ⟨(s.cells 0).session, s.disk, none, ⟨[], []⟩⟩)
    {hs : List HostedEvent} (hperm : Permitted d id blank A F D s hs) :
    (runHosted d id blank s hs).world.sessions = some 0 ∧
      ∃ w, P ⟨((runHosted d id blank s hs).world.cells 0).session,
        (runHosted d id blank s hs).world.disk, w, trace d id blank s hs⟩ := by
  have hbegin : Inv P (s, ⟨[], []⟩) fun _ => View.idle := by
    refine ⟨none, ⟨hentry, fun i => Knows.of_free rfl, ?_, ?_⟩, hstart⟩
    · simp [View.idle]
    · simp [View.idle]
  have halong : Along (Pool.happen (notedBody d id) (notedReboot d id blank))
      (Pool.Allows (Member A) (Guard F) fun disk s => D s.1.disk disk) (notedStart s) hs :=
    Pool.along_observed hs (Pool.shadows_nil s _) hperm
  have hshadow : Pool.Shadows (note d id)
      (Pool.history (notedBody d id) (notedReboot d id blank) (notedStart s) hs)
      (runHosted d id blank s hs) :=
    Pool.shadows_history hs (Pool.shadows_nil s _)
  have htracked : Pool.Tracked (Inv P) (Guard F) (fun _ _ w => w.lock = .free) View.idle
      (Pool.history (notedBody d id) (notedReboot d id blank) (notedStart s) hs) := by
    have hbody : ∀ i o, Member A o → Follows (Inv P) (Guard F) i (fun _ w => w.lock = .free)
        (notedBody d id i o) View.idle := fun i o ho => outline_body hP ho
    refine Pool.tracked_history hbody ?_ (Pool.tracked_nil hbegin) halong
    rintro ⟨s, t⟩ V disk ⟨w, -, hc⟩ hD
    obtain ⟨r, disk', hload, hr⟩ := hreboot _ disk hc hD
    exact inv_reboot hload hr
  obtain ⟨V, ⟨w, hb, hw⟩, -⟩ := htracked
  rw [hshadow.world] at hb hw
  exact ⟨hb.entry, w, hw⟩

def Calm (A : Draft → Prop) : HostedEvent → Prop
  | .move (.call o) => Member A o
  | .move (.step _ e) => e.fault = none
  | .crash _ => False

instance (A : Draft → Prop) [DecidablePred A] : DecidablePred (Calm A)
  | .move (.call _) => inferInstanceAs (Decidable (Member A _))
  | .move (.step _ _) => inferInstanceAs (Decidable (_ = _))
  | .crash _ => inferInstanceAs (Decidable False)

theorem permitted_of_calm {s : World} {hs : List HostedEvent} (h : ∀ x ∈ hs, Calm A x) :
    Permitted d id blank A F D s hs := by
  apply (Along.of_mem h).imp
  intro p x hx
  cases x with
  | crash k => exact hx.elim
  | move m =>
    cases m with
    | call o => exact hx
    | step i e =>
      simp only [Pool.Allows, Pool.Meets]
      split
      · intro _ err disk hfault
        rw [show e.fault = none from hx] at hfault
        cases hfault
      · trivial

end Runs

end Artel.Sequencer

namespace Artel.Sample

/-- A chat message of a member other than the host, signed with its own key. -/
def memberNote : Draft :=
  let draft : Draft := ⟨info 1, .chat, "", [], .Local⟩
  { draft with authoring := .Remote 5 (Ed25519.checksum.sign (peer 1) (draft.scope session 5)) }

end Artel.Sample
