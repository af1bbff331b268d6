import Artel.Registry.Crash

namespace Artel.Crash

open Store Medium.Program

structure Between (last new y : Session) : Prop where
  host : y.host = new.host
  kind : y.kind = .Local
  log : y.log = last.log ∨ y.log = new.log
  members : y.members = last.members ∨ y.members = new.members
  hostEpoch : y.hostEpoch = last.hostEpoch ∨ y.hostEpoch = new.hostEpoch
  tickets : y.tickets = last.tickets ∨ y.tickets = new.tickets
  workspaceTicket : y.workspaceTicket = last.workspaceTicket ∨
    y.workspaceTicket = new.workspaceTicket

theorem Between.right {last new : Session} (h : new.kind = .Local) : Between last new new :=
  ⟨rfl, h, .inr rfl, .inr rfl, .inr rfl, .inr rfl, .inr rfl⟩

theorem Between.trans {last new x y : Session} (hy : Between last x y) (hx : Between last new x) :
    Between last new y where
  host := hy.host.trans hx.host
  kind := hy.kind
  log := hy.log.elim .inl fun h => by rw [h]; exact hx.log
  members := hy.members.elim .inl fun h => by rw [h]; exact hx.members
  hostEpoch := hy.hostEpoch.elim .inl fun h => by rw [h]; exact hx.hostEpoch
  tickets := hy.tickets.elim .inl fun h => by rw [h]; exact hx.tickets
  workspaceTicket := hy.workspaceTicket.elim .inl fun h => by rw [h]; exact hx.workspaceTicket

variable {ed : Ed25519} (d : Daemon ed) (id : SessionId)

/-- A load keeps these messages: a build that signs verifies what it loads. -/
def Signed (log : List SessionMessage) : Prop :=
  d.signingKey.isSome = true → ∀ m ∈ log, Signing.verifyMessage ed id m m.signature = .ok ()

structure Settled (last new : Session) : Prop where
  id_eq : new.id = id
  kind : new.kind = .Local
  log : new.log = last.log ∨ ∃ m, new.log = last.log ++ [m]
  signed : Signed d id new.log

/-- From `x` the call settles a session, and a crash leaves one in between. -/
def Reaches (last x : Session) (t : Durable) : Prop :=
  ∃ new, Settled d id last new ∧ Between last new x ∧
    ∀ disk, Stored x disk →
      t.Meets disk (fun r disk' => r = ⟨some new, new.log⟩ ∧ Stored new disk')
        fun disk' => ∃ y, Between last new y ∧ Recoverable y disk'

section Reaches

variable {d id} {last x x' : Session}

theorem reaches_pure (h : Settled d id last x) : Reaches d id last x (return ⟨some x, x.log⟩) := by
  refine ⟨x, h, .right h.kind, fun disk hx => ?_⟩
  exact meets_pure ⟨rfl, hx⟩ ⟨x, .right h.kind, hx.recoverable⟩

variable {t : medium.Program (Except IoError Unit)}

theorem Reaches.after {f : Except IoError Unit → Durable}
    (h : Reaches d id last x' (f (.ok ()))) (ht : Takes t x x') (hx : Between last x' x) :
    Reaches d id last x (t >>= f) := by
  obtain ⟨new, hsettled, hx', hnext⟩ := h
  refine ⟨new, hsettled, hx.trans hx', fun disk hstored => Meets.bind ?_⟩
  refine (ht disk hstored).mono ?_ ?_
  · rintro r disk' ⟨rfl, hstored'⟩
    exact hnext disk' hstored'
  · rintro disk' (hrec | hrec)
    · exact ⟨x, hx.trans hx', hrec⟩
    · exact ⟨x', hx', hrec⟩

theorem Reaches.storeThen {s : Live} {next : Durable}
    (h : Reaches d id last x' next) (ht : Takes t x x') (hx : Between last x' x) :
    Reaches d id last x (storeThen s t next) :=
  Reaches.after h ht hx

theorem reaches_update {s : Live}
    (h : Settled d id x x) (ht : Takes t x x') (hid : x'.id = x.id) (hhost : x'.host = x.host)
    (hkind : x'.kind = x.kind) (hlog : x'.log = x.log) :
    Reaches d id x x (Crash.storeThen s t (return ⟨some x', x.log⟩)) := by
  have hsettled : Settled d id x x' :=
    ⟨hid.trans h.id_eq, hkind.trans h.kind, .inl hlog, by rw [hlog]; exact h.signed⟩
  have hend : Reaches d id x x' (return ⟨some x', x.log⟩) := by
    rw [← hlog]
    exact reaches_pure hsettled
  exact hend.storeThen ht ⟨hhost.symm, h.kind, .inl rfl, .inl rfl, .inl rfl, .inl rfl, .inl rfl⟩

theorem reaches_sendPrepared (hident : d.Identified) {acked : List SessionMessage}
    (hacked : acked = last.log) (hx : Settled d id last x) (hlog : x.log = last.log)
    {nowMs : UInt64} {draft : Draft} (hstamp : draft.Stamped d) :
    Reaches d id last x (sendPrepared d ⟨some x, acked⟩ x nowMs draft) := by
  subst hacked
  unfold sendPrepared
  cases hprep : prepareSend d x nowMs draft with
  | error e =>
    rw [← hlog]
    exact reaches_pure hx
  | ok m =>
    have hsigned : Signed d id (commitSend x m).log := by
      intro hkey y hy
      rcases List.mem_append.mp hy with hy | hy
      · exact hx.signed hkey y hy
      obtain ⟨key, hkey⟩ := Option.isSome_iff_exists.mp hkey
      have hframe := prepareSend_verified hkey hident hstamp hprep
      rw [List.mem_singleton.mp hy, ← hx.id_eq]
      unfold verifyFrame at hframe
      split at hframe
      · cases hframe
      · assumption
    have hsettled : Settled d id last (commitSend x m) :=
      ⟨hx.id_eq, hx.kind, .inr ⟨m, congrArg (· ++ [m]) hlog⟩, hsigned⟩
    have hend : Reaches d id last (commitSend x m)
        (return ⟨some (commitSend x m), last.log ++ [m]⟩) := by
      rw [← hlog]
      exact reaches_pure hsettled
    refine hend.storeThen (takes_append (prepareSend_ok d hprep).size) ?_
    exact ⟨rfl, hx.kind, .inl hlog, .inr rfl, .inr rfl, .inr rfl, .inr rfl⟩

theorem reaches_noteUse {tickets : Option (List TicketEntry)} {f : Session → Durable}
    (hx : x.kind = .Local) (htickets : x.tickets = last.tickets)
    (h : ∀ tickets, Reaches d id last { x with tickets := tickets } (f { x with tickets := tickets })) :
    Reaches d id last x (noteUse x tickets >>= f) := by
  cases tickets with
  | none => exact h x.tickets
  | some tickets =>
    obtain ⟨new, hsettled, hbetween, hnext⟩ := h tickets
    have hfirst : Between last { x with tickets := tickets } x :=
      ⟨rfl, hx, .inr rfl, .inr rfl, .inr rfl, .inl htickets, .inr rfl⟩
    refine ⟨new, hsettled, hfirst.trans hbetween, fun disk hstored => Meets.bind (Meets.bind ?_)⟩
    refine (takes_putTickets x tickets disk hstored).mono ?_ ?_
    · rintro r disk' ⟨-, hstored'⟩
      have hdone := hnext disk' hstored'
      exact meets_pure hdone (hdone.crashes disk' (.here _ _))
    · rintro disk' (hrec | hrec)
      · exact ⟨x, hfirst.trans hbetween, hrec⟩
      · exact ⟨_, hbetween, hrec⟩

theorem reaches_admitPeer (hident : d.Identified) (h : Settled d id x x) (peer : PeerInfo)
    (claim : Option CapClaim) (grantMs : UInt64) :
    Reaches d id x x (admitPeer d ⟨some x, x.log⟩ x peer claim grantMs) := by
  let member := { x with members := insert peer.id x.members }
  have hmember : Reaches d id x member (noteUse member
      (claim.bind fun c => recordUse c peer.id x.tickets) >>= fun admitted =>
        sendPrepared d ⟨some admitted, x.log⟩ admitted grantMs
          (grantDraft d peer.id (claim.elim .readWrite CapClaim.grantedCap))) := by
    refine reaches_noteUse h.kind rfl fun tickets => ?_
    have hsettled : Settled d id x { member with tickets := tickets } :=
      ⟨h.id_eq, h.kind, .inl rfl, h.signed⟩
    exact reaches_sendPrepared hident rfl hsettled rfl fun _ => rfl
  refine hmember.storeThen (takes_updateMembers x (insert peer.id)) ?_
  exact ⟨rfl, h.kind, .inl rfl, .inl rfl, .inl rfl, .inl rfl, .inl rfl⟩

theorem reaches_resume (h : Settled d id x x) (call : HostCall) :
    Reaches d id x x (resume ⟨some x, x.log⟩ x call) := by
  unfold resume
  split
  · exact reaches_pure h
  have hsettled : Settled d id x (resumedSession x call) := ⟨h.id_eq, h.kind, .inl rfl, h.signed⟩
  have hlast : Reaches d id x (resumedSession x call)
      (return ⟨some (resumedSession x call), x.log⟩) := reaches_pure hsettled
  have hbump : Reaches d id x { x with tickets := x.tickets ++ [ledgerEntry call] }
      (storeThen ⟨some x, x.log⟩ (Programs.bumpHostEpoch (nextEpoch x.hostEpoch))
        (return ⟨some (resumedSession x call), x.log⟩)) := by
    refine hlast.storeThen (takes_bumpHostEpoch _ (nextEpoch x.hostEpoch)) ?_
    exact ⟨rfl, h.kind, .inl rfl, .inl rfl, .inl rfl, .inr rfl, .inl rfl⟩
  refine hbump.storeThen (takes_putTickets x _) ?_
  exact ⟨rfl, h.kind, .inl rfl, .inl rfl, .inl rfl, .inl rfl, .inl rfl⟩

end Reaches

inductive Good : Live → Disk → Prop
  | absent {disk : Disk} (hdir : disk.dir = none) : Good ⟨none, []⟩ disk
  | hosted {session : Session} {disk : Disk} (hsettled : Settled d id session session)
      (hstored : Stored session disk) : Good ⟨some session, session.log⟩ disk

def blank : Session := Session.new id d.peerId .Local

def Left (s s' : Live) (disk : Disk) : Prop :=
  (s.memory.isSome = true → s'.memory.isSome = true) →
    (s.memory = none ∧ storedMeta disk = none) ∨
      ∃ y, Between (s.memory.getD (blank d id)) (s'.memory.getD (blank d id)) y ∧
        Recoverable y disk ∧ (y.log = s.acked ∨ ∃ m, s'.acked = s.acked ++ [m] ∧ y.log = s'.acked)

def Sound (s : Live) (t : Durable) (disk : Disk) : Prop :=
  ∃ s', t.Meets disk (fun r disk' => r = s' ∧ Good d id s' disk') (Left d id s s')

section Sound

variable {d id} {x : Session} {disk : Disk}

theorem sound_absent (hdir : disk.dir = none) :
    Sound d id ⟨none, []⟩ (return ⟨none, []⟩) disk := by
  refine ⟨_, meets_pure ⟨rfl, .absent hdir⟩ fun _ => .inl ⟨rfl, ?_⟩⟩
  simp [storedMeta, hdir]

theorem Reaches.sound {t : Durable} (h : Reaches d id x x t) (hstored : Stored x disk) :
    Sound d id ⟨some x, x.log⟩ t disk := by
  obtain ⟨new, hsettled, -, hmeets⟩ := h
  refine ⟨⟨some new, new.log⟩, (hmeets disk hstored).mono ?_ ?_⟩
  · rintro r disk' ⟨rfl, hnew⟩
    exact ⟨rfl, .hosted ⟨hsettled.id_eq, hsettled.kind, .inl rfl, hsettled.signed⟩ hnew⟩
  · rintro disk' ⟨y, hy, hrec⟩ -
    refine .inr ⟨y, hy, hrec, ?_⟩
    obtain hlog | hlog := hy.log
    · exact .inl hlog
    · obtain hnew | ⟨m, hnew⟩ := hsettled.log
      · exact .inl (hlog.trans hnew)
      · exact .inr ⟨m, hnew, hlog⟩

theorem sound_create (hdir : disk.dir = none) (call : HostCall) :
    Sound d id ⟨none, []⟩ (create id ⟨none, []⟩ call) disk := by
  let session := createdSession id call (disk.epochFloor.getD 0)
  have hsettled : Settled d id session session := ⟨rfl, rfl, .inl rfl, fun _ => nofun⟩
  have hfloor : create id ⟨none, []⟩ call disk = storeThen ⟨none, []⟩
      (Programs.create session.record) (return ⟨some session, []⟩) disk := rfl
  have hmeets : (storeThen ⟨none, []⟩ (Programs.create session.record)
      (return ⟨some session, []⟩)).Meets disk
        (fun r disk' => r = ⟨some session, []⟩ ∧ Good d id ⟨some session, []⟩ disk')
        (Left d id ⟨none, []⟩ ⟨some session, []⟩) := by
    refine Meets.bind ((meets_create hdir rfl rfl (List.cons_ne_nil _ _)).mono ?_ ?_)
    · rintro r disk' ⟨rfl, hstored⟩
      refine meets_pure ⟨rfl, .hosted hsettled hstored⟩ fun _ => .inr ⟨session, ?_⟩
      exact ⟨.right rfl, hstored.recoverable, .inl rfl⟩
    · rintro disk' (hnone | hbare | hfull) -
      · exact .inl ⟨rfl, hnone⟩
      · refine .inr ⟨_, ?_, hbare, .inl rfl⟩
        exact ⟨rfl, rfl, .inl rfl, .inr rfl, .inr rfl, .inl rfl, .inl rfl⟩
      · exact .inr ⟨session, .right rfl, hfull, .inl rfl⟩
  refine ⟨⟨some session, []⟩, ?_, ?_⟩
  · rw [hfloor]
    exact hmeets.returns
  · rw [hfloor]
    exact hmeets.crashes

theorem sound_delete : Sound d id ⟨some x, x.log⟩
    (storeThen ⟨some x, x.log⟩ Programs.delete (return ⟨none, []⟩)) disk :=
  ⟨⟨none, []⟩, ⟨rfl, .absent rfl⟩, fun _ _ hkept => absurd (hkept rfl) nofun⟩

theorem sound_refused {s : Live} {t : medium.Program (Except IoError Unit)} {next : Durable}
    {e : IoError} (h : Sound d id s (return s) disk) (ht : t disk = (.error e, [])) :
    Sound d id s (storeThen s t next) disk := by
  have hsame : storeThen s t next disk = (return s : Durable) disk := by
    rw [storeThen, bind_apply, ht]
    rfl
  obtain ⟨s', hreturns, hcrashes⟩ := h
  refine ⟨s', ?_, ?_⟩
  · rwa [hsame]
  · rwa [hsame]

theorem sound_putTickets (h : Settled d id x x) (hstored : Stored x disk)
    (tickets : List TicketEntry) :
    Sound d id ⟨some x, x.log⟩ (storeThen ⟨some x, x.log⟩ (Programs.putTickets tickets)
      (return ⟨some { x with tickets := tickets }, x.log⟩)) disk :=
  (reaches_update h (takes_putTickets x tickets) rfl rfl rfl rfl).sound hstored

theorem sound_updateMembers (h : Settled d id x x) (hstored : Stored x disk)
    (f : Finset PeerId → Finset PeerId) :
    Sound d id ⟨some x, x.log⟩ (storeThen ⟨some x, x.log⟩ (call (updateMembers f) (membersWrites f))
      (return ⟨some { x with members := f x.members }, x.log⟩)) disk :=
  (reaches_update h (takes_updateMembers x f) rfl rfl rfl rfl).sound hstored

theorem sound_hosted (hident : d.Identified) (h : Settled d id x x) (hstored : Stored x disk)
    {o : Op} (ho : Allowed d o) : Sound d id ⟨some x, x.log⟩ (perform d id ⟨some x, x.log⟩ o) disk := by
  have hkind : ¬ x.kind ≠ .Local := not_not.mpr h.kind
  have hstay : Sound d id ⟨some x, x.log⟩ (return ⟨some x, x.log⟩) disk :=
    (reaches_pure h).sound hstored
  have hlocal : ∀ f, withLocal ⟨some x, x.log⟩ f = f x := fun f => if_neg hkind
  cases o with
  | host call => exact (reaches_resume h call).sound hstored
  | join peer =>
    change Sound d id _ (join ⟨some x, x.log⟩ peer) disk
    unfold join
    dsimp only
    split
    · exact hstay
    · exact sound_updateMembers h hstored (insert peer)
  | issueTicket grantedCap expiryMs mint =>
    change Sound d id _ (issueTicket d _ grantedCap expiryMs mint) disk
    rw [issueTicket, hlocal]
    exact sound_putTickets h hstored _
  | revokeTicket ticket =>
    change Sound d id _ (revokeTicket _ ticket) disk
    rw [revokeTicket, hlocal]
    split
    · exact hstay
    · split
      · exact hstay
      · exact sound_putTickets h hstored _
  | send nowMs draft =>
    change Sound d id _ (send d _ nowMs draft) disk
    unfold send
    split
    · exact hstay
    · rw [hlocal]
      exact (reaches_sendPrepared hident rfl h rfl ho).sound hstored
  | ensureMember peer claim nowMs grantMs =>
    change Sound d id _ (ensureMember d id _ peer claim nowMs grantMs) disk
    unfold ensureMember
    split
    · exact hstay
    rw [hlocal]
    split
    · exact hstay
    · split
      · exact hstay
      · exact (reaches_admitPeer hident h peer claim grantMs).sound hstored
  | removeMember peer =>
    change Sound d id _ (removeMember _ peer) disk
    rw [removeMember, hlocal]
    split
    · exact hstay
    · exact sound_updateMembers h hstored fun members => members.erase peer
  | leave peer =>
    change Sound d id _ (leave ⟨some x, x.log⟩ peer) disk
    unfold leave
    dsimp only
    split
    · exact hstay
    · split
      · exact sound_delete
      · exact sound_updateMembers h hstored fun members => members.erase peer
  | publishWorkspaceTicket envelope =>
    change Sound d id _ (publishWorkspaceTicket _ envelope) disk
    rw [publishWorkspaceTicket, hlocal]
    by_cases hmax : envelope.length ≤ WORKSPACE_TICKET_ENVELOPE_MAX
    · exact (reaches_update h (takes_putWorkspaceTicket x hmax) rfl rfl rfl rfl).sound hstored
    · obtain ⟨dir, doc, hdir, -⟩ := hstored
      refine sound_refused hstay (e := .invalidData) ?_
      simp [Programs.putWorkspaceTicket, call, putWorkspaceTicket, writeWorkspaceTicket,
        envelopeWrites, hdir, hmax, Nat.lt_of_not_le hmax]

theorem sound_perform (hident : d.Identified) {s : Live} (hgood : Good d id s disk) {o : Op}
    (ho : Allowed d o) : Sound d id s (perform d id s o) disk := by
  cases hgood with
  | absent hdir =>
    have hstay : Sound d id ⟨none, []⟩ (return ⟨none, []⟩) disk := sound_absent hdir
    cases o with
    | host call => exact sound_create hdir call
    | send nowMs draft =>
      change Sound d id _ (send d _ nowMs draft) disk
      unfold send
      split
      · exact hstay
      · exact hstay
    | ensureMember peer claim nowMs grantMs =>
      change Sound d id _ (ensureMember d id _ peer claim nowMs grantMs) disk
      unfold ensureMember
      split
      · exact hstay
      · exact hstay
    | join | issueTicket | revokeTicket | removeMember | leave | publishWorkspaceTicket => exact hstay
  | hosted h hstored => exact sound_hosted hident h hstored ho

theorem Good.signed {s : Live} (h : Good d id s disk) : Signed d id s.acked := by
  cases h with
  | absent => exact fun _ => nofun
  | hosted hsettled => exact hsettled.signed

theorem good_step (hident : d.Identified) {s : State} (hgood : Good d id s.1 s.2) {o : Op}
    (ho : Allowed d o) : Good d id (step d id s o).1 (step d id s o).2 := by
  obtain ⟨s', hmeets⟩ := sound_perform hident hgood ho
  obtain ⟨rfl, hgood'⟩ := hmeets.returns
  exact hgood'

theorem good_run (hident : d.Identified) (floor : Option UInt64) {ops : List Op}
    (hops : ∀ o ∈ ops, Allowed d o) : Good d id (run d id floor ops).1 (run d id floor ops).2 := by
  induction ops using List.reverseRecOn with
  | nil => exact .absent rfl
  | append_singleton ops o ih =>
    rw [run, List.foldl_append]
    exact good_step hident (ih fun p hp => hops p (List.mem_append_left _ hp)) (hops o (by simp))

end Sound

/-- The record loaded after a crash between `last` and `inflight`. -/
structure Recovered (last inflight : Session) (acked acked' : List SessionMessage)
    (r : SessionRecord) : Prop where
  id : r.id = id
  kind : r.kind = .Local
  host : r.host = inflight.host
  log : r.log = acked ∨ ∃ m, acked' = acked ++ [m] ∧ r.log = acked ++ [m]
  le_head : ∀ m, m ∈ r.log ∨ m ∈ acked → m.seq ≤ r.head
  caps : (Session.fromRecord r).caps = projectCaps r.host r.log
  members : r.members = last.members ∨ r.members = inflight.members
  tickets : r.tickets = last.tickets ∨ r.tickets = inflight.tickets
  hostEpoch : r.hostEpoch = last.hostEpoch ∨ r.hostEpoch = inflight.hostEpoch
  workspaceTicket : r.workspaceTicket = last.workspaceTicket ∨
    r.workspaceTicket = inflight.workspaceTicket
  fresh : ∀ nowMs draft m, prepareSend d (.fromRecord r) nowMs draft = .ok m →
    ∀ x, x ∈ r.log ∨ x ∈ acked → x.seq < m.seq

theorem recovered_of_recalled {last inflight y : Session} {acked acked' : List SessionMessage}
    {r : SessionRecord} (hy : Between last inflight y) (h : Recalled id y r)
    (hlog : y.log = acked ∨ ∃ m, acked' = acked ++ [m] ∧ y.log = acked') :
    Recovered d id last inflight acked acked' r := by
  have hlog' : r.log = acked ∨ ∃ m, acked' = acked ++ [m] ∧ r.log = acked ++ [m] := by
    rw [h.log]
    refine hlog.imp_right ?_
    rintro ⟨m, hm, hy⟩
    exact ⟨m, hm, hy.trans hm⟩
  have hacked : ∀ m ∈ acked, m ∈ r.log := by
    intro m hm
    obtain heq | ⟨_, -, heq⟩ := hlog'
    · rwa [heq]
    · rw [heq]
      exact List.mem_append_left _ hm
  have hhead : ∀ m, m ∈ r.log ∨ m ∈ acked → m.seq ≤ r.head :=
    fun m hm => h.le_head m (hm.elim (fun h => h) (hacked m))
  exact
    { id := h.id
      kind := h.kind.trans hy.kind
      host := h.host.trans hy.host
      log := hlog'
      le_head := hhead
      caps := rfl
      members := by rw [h.members]; exact hy.members
      tickets := by rw [h.tickets]; exact hy.tickets
      hostEpoch := by rw [h.hostEpoch]; exact hy.hostEpoch
      workspaceTicket := by rw [h.workspaceTicket]; exact hy.workspaceTicket
      fresh := fun nowMs draft m hprep x hx =>
        (Seq.lt_next_iff _ _ _ (prepareSend_ok d hprep).seq).mpr (hhead x hx) }

theorem load_of_storedMeta_none {disk : Disk} (h : storedMeta disk = none) (verify : Bool) :
    (load ed id verify disk).1 = .error .notFound := by
  obtain ⟨_ | ⟨log, _ | doc, tickets, envelope⟩, floor⟩ := disk
  · rfl
  · rfl
  · cases h

/-- After a crash the load gives what was acknowledged, maybe with what was in flight. -/
theorem crash_recovers (hident : d.Identified) (floor : Option UInt64) (ops : List Op)
    (hops : ∀ p ∈ ops, Allowed d p) (o : Op) (ho : Allowed d o) {s s' : State}
    (hs : run d id floor ops = s) (hs' : step d id s o = s')
    (hkept : s.1.memory.isSome = true → s'.1.memory.isSome = true) {disk : Disk}
    (hcut : medium.Cut (perform d id s.1 o s.2).2 s.2 disk) :
    (s.1.memory = none ∧ storedMeta disk = none ∧
        (load ed id d.signingKey.isSome disk).1 = .error .notFound) ∨
      ∃ r, (load ed id d.signingKey.isSome disk).1 = .ok r ∧
        Recovered d id (s.1.memory.getD (blank d id)) (s'.1.memory.getD (blank d id)) s.1.acked
          s'.1.acked r := by
  have hgood : Good d id s.1 s.2 := by
    rw [← hs]
    exact good_run hident floor hops
  obtain ⟨new, hmeets⟩ := sound_perform hident hgood ho
  obtain ⟨hnew, hgood'⟩ := hmeets.returns
  have hnew' : s'.1 = new := by
    rw [← hs']
    exact hnew
  rw [← hnew'] at hmeets hgood'
  obtain ⟨hnone, hmeta⟩ | ⟨y, hy, hrec, hlog⟩ := hmeets.crashes disk hcut hkept
  · exact .inl ⟨hnone, hmeta, load_of_storedMeta_none id hmeta _⟩
  have hsigned : Signed d id y.log := by
    obtain hlog | ⟨_, -, hlog⟩ := hlog
    · rw [hlog]
      exact hgood.signed
    · rw [hlog]
      exact hgood'.signed
  obtain ⟨r, hload, hr⟩ := hrec.load ed id d.signingKey.isSome hsigned
  exact .inr ⟨r, hload, recovered_of_recalled d id hy hr hlog⟩

namespace Sample

open Artel.Sample

def hosted : State := run daemon session none [.host call]

def spoken : State := run daemon session none [.host call, .send 0 (note [7])]

def tornDisk : Disk := hosted.2.appendPart (Draft.message (note [7]) ⟨1⟩ 0
  (authorLocal daemon session 0 (note [7])).2
    (signSeqFor daemon session ⟨1⟩ (authorLocal daemon session 0 (note [7])).2)) 4

set_option maxRecDepth 4000 in
/-- A crash inside the first message's append. -/
theorem crash_recovers_torn : tornDisk.logBytes.length = 4 ∧
    ∃ r, (load .checksum session true tornDisk).1 = .ok r ∧
      Recovered daemon session (hosted.1.memory.getD (blank daemon session))
        (spoken.1.memory.getD (blank daemon session)) hosted.1.acked spoken.1.acked r := by
  have hstep : step daemon session hosted (.send 0 (note [7])) = spoken := rfl
  have hcut : medium.Cut (perform daemon session hosted.1 (.send 0 (note [7])) hosted.2).2 hosted.2
      tornDisk := .inside ⟨4, rfl⟩
  have hrecovers := crash_recovers daemon session identified none [.host call] (by decide)
    (.send 0 (note [7])) (by decide) rfl hstep (by decide +kernel) hcut
  refine ⟨by decide +kernel, hrecovers.resolve_left ?_⟩
  rintro ⟨hnone, -⟩
  revert hnone
  decide +kernel

set_option maxRecDepth 4000 in
/-- A crash before the meta, or inside the host's leave, loses the session. -/
theorem crash_loses_session :
    (∃ disk, medium.Cut (perform daemon session ⟨none, []⟩ (.host call) noDisk).2 noDisk disk ∧
      disk.dir.isSome = true ∧ (load .checksum session true disk).1 = .error .notFound) ∧
    ∃ disk, medium.Cut (perform daemon session spoken.1 (.leave (peer 0)) spoken.2).2 spoken.2 disk ∧
      spoken.1.acked.length = 1 ∧
      ((load .checksum session true disk).1.toOption.map SessionRecord.log) = some [] := by
  refine ⟨⟨_, .later (.later (.later (.here _ _))), by decide +kernel, by decide +kernel⟩, ?_⟩
  let dir := spoken.2.dir.getD .empty
  refine ⟨{ spoken.2 with dir := some { dir with log := none } }, ?_, by decide +kernel,
    by decide +kernel⟩
  have hdir : spoken.2.dir = some dir := by decide +kernel
  exact .inside ⟨dir, { dir with log := none }, hdir, ⟨.inr rfl, .inl rfl, .inl rfl, .inl rfl⟩, rfl⟩

end Sample

end Artel.Crash
