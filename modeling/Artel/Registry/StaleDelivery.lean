import Artel.Registry.DeliveryInvariant

namespace Artel.Delivering

open Store Registry Fiber

section Calls

variable {ed : Ed25519} (d : Daemon ed) (id : SessionId) {me : ℕ}

/-- The actions of a call that leave the envelopes as they are. -/
abbrev Spared {α : Type} (t : Async α) : Prop := t.Each fun _ => Keeps

theorem spared_lookup : Spared lookup := each_waitFor fun _ _ => .of_eq rfl rfl

variable (h : Handle)

theorem spared_modify {α : Type} {l : Label} {ready : Env → World → Bool} {a : Env → World → α}
    {f : Cell → Cell}
    (hf : ∀ c, (f c).session.workspaceTicket = c.session.workspaceTicket) :
    Spared (Fiber.waitFor l ready fun e s => (a e s, s.modify h f)) :=
  each_waitFor fun _ s => Keeps.modify s h hf

theorem spared_lock : Spared (lock me h) := spared_modify h fun _ => rfl

theorem spared_unlock : Spared (unlock h) := spared_modify h fun _ => rfl

theorem spared_update {f : Session → Session}
    (hf : ∀ s, (f s).workspaceTicket = s.workspaceTicket) : Spared (update h f) :=
  spared_modify h fun c => hf c.session

theorem spared_emit (event : Event) : Spared (emit h event) :=
  spared_modify h fun _ => rfl

theorem spared_store {α : Type} (l : Label) (op : Disk → IoResult α) : Spared (store l op) := by
  refine each_waitFor fun e s => ?_
  split <;> exact .of_eq rfl rfl

theorem spared_releaseMap : Spared releaseMap := each_waitFor fun _ _ => .of_eq rfl rfl

theorem spared_forget : Spared (forget h) := by
  refine each_waitFor fun _ s => ?_
  split
  · rename_i feeds _
    cases feeds <;> exact .of_eq rfl rfl
  · exact .of_eq rfl rfl

theorem spared_hostSession : Spared (hostSession h) := by
  apply Each.bind
  · refine each_waitFor fun _ s => ?_
    split <;> exact .of_eq rfl rfl
  · intro generation
    cases generation with
    | none => trivial
    | some generation =>
      refine (each_waitFor fun _ _ => .of_eq rfl rfl).bind fun err => ?_
      cases err with
      | some err =>
        refine (each_waitFor fun _ s => ?_).bind fun _ => trivial
        split <;> exact .of_eq rfl rfl
      | none =>
        refine (each_waitFor fun _ _ => .of_eq rfl rfl).bind fun _ => ?_
        refine (each_waitFor fun _ s => ?_).bind fun _ => trivial
        split <;> exact .of_eq rfl rfl

theorem spared_release {α : Type} (a : α) : Spared ((unlock h).bind fun _ => .ret a) :=
  (spared_unlock h).bind fun _ => trivial

theorem each_lockLocalSession {T : Label → World → World → Prop} (hlookup : ∀ s, T .lookup s s)
    (hlock : ∀ h s, T (.lock h) s (s.modify h fun c => { c with holder := some me }))
    (hunlock : ∀ h s, T (.unlock h) s (s.modify h fun c => { c with holder := none })) :
    (lockLocalSession id me).Each T := by
  refine (each_waitFor fun _ s => hlookup s).option trivial fun h => ?_
  refine (each_waitFor fun _ s => hlock h s).bind fun s => ?_
  split
  · exact (each_waitFor fun _ s => hunlock h s).bind fun _ => trivial
  · trivial

theorem spared_lockLocalSession : Spared (lockLocalSession id me) :=
  each_lockLocalSession id (fun _ => .of_eq rfl rfl) (fun h s => .modify s h fun _ => rfl)
    fun h s => .modify s h fun _ => rfl

theorem spared_leave (peer : PeerId) : Spared (leave id me peer) := by
  refine spared_lookup.option trivial fun h => ?_
  refine (spared_lock h).bind fun s => ?_
  split
  · exact spared_release h _
  refine (spared_store _ _).except (fun _ => spared_release h _) fun _ => ?_
  refine Each.bind (spared_update h fun _ => rfl) fun _ =>
    (spared_emit h _).bind fun _ =>
    (spared_unlock h).bind fun _ => ?_
  split
  · exact (each_waitFor fun _ _ => .of_eq rfl rfl).bind fun _ =>
      (spared_forget h).bind fun _ => trivial
  · trivial

theorem spared_removeMember (peer : PeerId) : Spared (removeMember id me peer) := by
  refine (spared_lockLocalSession id).except (fun _ => trivial) fun ⟨h, s⟩ => ?_
  dsimp only
  split
  · exact spared_release h _
  · refine (spared_store _ _).except (fun _ => spared_release h _) fun _ => ?_
    exact Each.bind (spared_update h fun _ => rfl) fun _ =>
      (spared_emit h _).bind fun _ =>
      spared_release h _

theorem spared_issueTicket (grantedCap : Capability) (expiryMs : UInt64) (mint : Mint) :
    Spared (issueTicket d id me grantedCap expiryMs mint) := by
  refine (spared_lockLocalSession id).except (fun _ => trivial) fun ⟨h, s⟩ => ?_
  refine (spared_store _ _).except (fun _ => spared_release h _) fun _ => ?_
  exact Each.bind (spared_update h fun _ => rfl) fun _ =>
    spared_release h _

theorem spared_revokeTicket (ticket : TicketId) : Spared (revokeTicket id me ticket) := by
  refine (spared_lockLocalSession id).except (fun _ => trivial) fun ⟨h, s⟩ => ?_
  dsimp only
  split
  · exact spared_release h _
  · split
    · exact spared_release h _
    · refine (spared_store _ _).except (fun _ => spared_release h _) fun _ => ?_
      exact Each.bind (spared_update h fun _ => rfl) fun _ =>
        spared_release h _

theorem spared_hostResume (call : HostCall) (h : Handle) : Spared (hostResume d id me call h) := by
  refine (spared_lock h).bind fun s => ?_
  split
  · exact spared_release h _
  · refine (spared_store _ _).except (fun _ => spared_release h _) fun _ => ?_
    refine (spared_store _ _).except (fun _ => spared_release h _) fun _ => ?_
    exact Each.bind (spared_update h fun _ => rfl) fun _ =>
      (spared_unlock h).bind fun _ =>
      (spared_hostSession h).bind fun _ => trivial

theorem spared_hostCreate (call : HostCall) : Spared (hostCreate d id call) := by
  refine (spared_store _ _).except (fun _ => spared_releaseMap.bind fun _ => trivial)
    fun floor => ?_
  refine (spared_store _ _).except (fun _ => spared_releaseMap.bind fun _ => trivial) fun _ => ?_
  refine (each_waitFor fun _ s => ?_).bind fun h =>
    (spared_hostSession h).bind fun _ => trivial
  exact .insert s rfl

theorem spared_host (call : HostCall) (passes : ℕ) : Spared (host d id me call passes) := by
  induction passes with
  | zero => exact each_waitFor fun _ _ => .of_eq rfl rfl
  | succ passes ih =>
    refine spared_lookup.option ?_ fun h => spared_hostResume d id call h
    exact (each_waitFor fun _ _ => .of_eq rfl rfl).option (spared_hostCreate d id call)
      fun _ => spared_releaseMap.bind fun _ => ih

theorem spared_sendLocal (draft : Draft) : Spared (sendLocal d me h draft) := by
  refine (spared_lock h).bind fun s => (each_waitFor fun _ _ => .of_eq rfl rfl).bind fun nowMs => ?_
  split
  · exact spared_release h _
  refine (spared_store _ _).except (fun _ => spared_release h _) fun _ => ?_
  refine Each.bind (spared_update h fun _ => rfl) fun _ => (spared_unlock h).bind fun _ =>
    (spared_emit h _).bind fun _ => ?_
  split
  · trivial
  · exact (each_waitFor fun _ _ => .of_eq rfl rfl).bind fun _ => trivial

theorem spared_send (draft : Draft) : Spared (send d id me draft) := by
  unfold send
  split
  · trivial
  refine spared_lookup.option trivial fun h => ?_
  refine (spared_lock h).bind fun s => (spared_unlock h).bind fun _ => ?_
  split
  · trivial
  · split
    · refine (each_waitFor fun _ _ => .of_eq rfl rfl).bind fun ack => ?_
      split <;> trivial
    · exact spared_sendLocal d h draft

theorem spared_ensureMember (peer : PeerInfo) (claim : Option CapClaim) :
    Spared (ensureMember d id me peer claim) := by
  refine (each_waitFor fun _ _ => .of_eq rfl rfl).bind fun nowMs => ?_
  split
  · trivial
  refine spared_lookup.option trivial fun h => ?_
  refine (spared_lock h).bind fun s => ?_
  split
  · exact spared_release h _
  split
  · exact spared_release h _
  refine (spared_store _ _).except (fun _ => spared_release h _) fun _ => ?_
  have hnote : ∀ tickets, Spared (noteUse h tickets) := by
    intro tickets
    cases tickets with
    | none => trivial
    | some tickets =>
      exact Each.bind (spared_update h fun _ => rfl) fun _ =>
        (spared_store _ _).bind fun _ => trivial
  refine Each.bind (spared_update h fun _ => rfl) fun _ => (hnote _).bind fun _ =>
    (spared_unlock h).bind fun _ => (spared_emit h _).bind fun _ => ?_
  split
  · exact (spared_send d id _).bind fun _ => trivial
  · trivial

end Calls

/-- No other session has taken the place of the session it is on. -/
def Guard : PostCall → Label → Env → World × Post → Prop
  | .publish _ _, .update h, _, w => h + 1 = w.1.nextHandle
  | .task _, .deliver h, e, w => e.subscribeError = none → h + 1 = w.1.nextHandle
  | _, _, _, _ => True

instance (o : PostCall) (l : Label) (e : Env) (w : World × Post) : Decidable (Guard o l e w) := by
  unfold Guard
  split <;> infer_instance

section Outlines

variable {ed : Ed25519} (d : Daemon ed) (id : SessionId) {i : ℕ} {o : PostCall} {v : View}

theorem quiet_beside {α : Type} {t : Async α} (ht : Spared t) : Quiet Inv (Guard o) i v t.beside :=
  ht.quiet fun _ _ _ _ _ _ hs hI => hI.keeps hs rfl rfl

theorem outline_deliverWorkspaceTicketTo (target : PeerId) (envelope : Bytes) :
    Quiet Inv (Guard o) i v (deliverWorkspaceTicketTo d i target envelope) := by
  unfold deliverWorkspaceTicketTo
  split
  · rfl
  · refine (quiet_beside spared_lookup).option rfl fun h => ?_
    refine (quiet_beside (spared_lock h)).andThen fun _ => (quiet_beside (spared_unlock h)).andThen
      fun _ => ?_
    exact Quiet.once fun _ w V hI _ _ => hI.keeps (.of_eq rfl rfl) rfl rfl

theorem outline_fanOut (envelope : Bytes) (order : List PeerId) :
    Quiet Inv (Guard o) i v (fanOut d i envelope order) := by
  induction order with
  | nil => rfl
  | cons target rest ih => exact (outline_deliverWorkspaceTicketTo d target envelope).andThen fun _ => ih

/-- The actions of a publication that are not the publication itself. -/
abbrev Silent (l : Label) (s s' : World) : Prop := (∀ h, l ≠ .update h) ∧ Keeps s s'

theorem quiet_silent {α : Type} {t : Async α} (ht : t.Each Silent) (envelope : Bytes) :
    Quiet Inv (Guard o) i v (t.observe (Post.notePublish envelope)) := by
  refine ht.quiet fun l e s s' g V hs hI => ?_
  have hnote : Post.notePublish envelope l e s s' g = g := by
    cases l with
    | update h => exact absurd rfl (hs.1 h)
    | _ => rfl
  rw [hnote]
  exact hI.keeps hs.2 rfl rfl

theorem silent_unlock (h : Handle) : (unlock h).Each Silent := by
  have hkeeps : ∀ s : World, Keeps s (s.modify h fun c => { c with holder := none }) := fun s =>
    .modify s h fun _ => rfl
  exact each_waitFor fun _ s => ⟨nofun, hkeeps s⟩

theorem outline_publishWorkspaceTicket (envelope : Bytes) (order : List PeerId) :
    Quiet Inv (Guard (.publish envelope order)) i v (publishWorkspaceTicket d id i envelope order) := by
  have hstore : Quiet Inv (Guard (.publish envelope order)) i v
      ((storeWorkspaceTicket id i envelope).observe (Post.notePublish envelope)) := by
    refine Follows.bindObserve (quiet_silent ?_ envelope) fun found w hw => ?_
    · exact each_lockLocalSession id (fun _ => ⟨nofun, .of_eq rfl rfl⟩)
        (fun h s => ⟨nofun, .modify s h fun _ => rfl⟩)
        fun h s => ⟨nofun, .modify s h fun _ => rfl⟩
    rw [hw]
    cases found with
    | error e => rfl
    | ok x =>
      obtain ⟨h, s⟩ := x
      refine Follows.bindObserve (quiet_silent ?_ envelope) fun result w hw => ?_
      · refine each_waitFor fun e s => ?_
        split <;> exact ⟨nofun, .of_eq rfl rfl⟩
      rw [hw]
      cases result with
      | error e =>
        refine Follows.bindObserve (quiet_silent (silent_unlock h) envelope) fun _ w hw => ?_
        exact hw
      | ok _ =>
        refine Follows.bindObserve (Q := fun _ w => w = v) ?_ fun _ w hw => ?_
        · refine Follows.onceObserve fun s g V e hI hv hC => ⟨v, ?_, rfl⟩
          rw [← hv, Function.update_eq_self]
          exact hI.publish hC
        rw [hw]
        refine Follows.bindObserve (quiet_silent (silent_unlock h) envelope) fun _ w hw => ?_
        exact hw
  exact hstore.except (fun _ => rfl)
    fun members => (outline_fanOut d envelope _).andThen fun _ => rfl

theorem outline_admitAndDeliver (peer : PeerInfo) (claim : Option CapClaim) :
    Quiet Inv (Guard o) i v (admitAndDeliver d id i peer claim) := by
  have hsnapshot : Quiet Inv (Guard o) i v
      ((ensureMember d id i peer claim).observe (Post.noteSnapshot i)) := by
    refine (spared_ensureMember d id peer claim).quiet fun l e s s' g V hs hI => ?_
    apply hI.keeps hs
    · unfold Post.noteSnapshot
      split
      · split <;> rfl
      · rfl
    · unfold Post.noteSnapshot
      split
      · split <;> rfl
      · rfl
  refine hsnapshot.except (fun _ => rfl) fun _ => ?_
  refine Quiet.andThen (Quiet.once fun _ w V hI _ _ => hI) fun snapshot => ?_
  split
  · exact (outline_deliverWorkspaceTicketTo d _ _).andThen fun _ => rfl
  · rfl

theorem outline_runDeliveryWithRetry (k : ℕ) (t : Delivery) (retries : ℕ) :
    Quiet Inv (Guard (.task k)) i .idle (runDeliveryWithRetry i t retries) := by
  induction retries with
  | zero => rfl
  | succ retries ih =>
    have hunlock : ∀ {α : Type} {w : View} {next : Fiber (World × Post) Env Label α}
        {Q : α → View → Prop}, (w = .lane t.handle t.target ∨
          w = .checked t.handle t.target t.envelope) →
        Follows Inv (Guard (.task k)) i Q next .idle →
        Follows Inv (Guard (.task k)) i Q ((unlockLane t.handle t.target).bind fun _ => next) w := by
      intro α w next Q hw hnext
      refine Follows.once fun s V e hI hv _ => ⟨.idle, ?_, hnext⟩
      have hmine := hI.knows i
      rw [hv] at hmine
      obtain rfl | rfl := hw
      · exact hI.unlockLane hmine
      · exact hI.unlockLane hmine.1
    refine Follows.waitFor fun s V e hI _ hready _ => ⟨.lane t.handle t.target, ?_, ?_⟩
    · exact hI.lockLane (Option.isNone_iff_eq_none.mp hready)
    refine Follows.bind (Q := fun s w => w = if deliveryStillCurrent s.members s.workspaceTicket
      t.target t.envelope then .checked t.handle t.target t.envelope
      else .lane t.handle t.target) ?_ fun s w hw => ?_
    · refine Follows.waitForObserve fun s g V e hI hv _ _ => ?_
      refine ⟨_, ?_, rfl⟩
      have hmine := hI.knows i
      rw [hv] at hmine
      have hI' : Inv (s.modify t.handle fun c => { c with holder := some i }, g) V :=
        hI.keeps (.modify s t.handle fun _ => rfl) rfl rfl
      split
      · rename_i hcurrent
        simp only [deliveryStillCurrent, Bool.and_eq_true, decide_eq_true_eq] at hcurrent
        refine hI'.check hmine ?_
        simpa using hcurrent.2
      · rw [← hv, Function.update_eq_self]
        exact hI'
    refine (quiet_beside (spared_unlock t.handle)).andThen fun _ => ?_
    split
    · rename_i hcurrent
      rw [if_pos hcurrent] at hw
      subst hw
      refine Follows.once fun s V e hI hv hC => ?_
      split
      · rename_i hnone
        refine ⟨_, hI.deliver hv (hC (Option.isNone_iff_eq_none.mp hnone)), ?_⟩
        exact hunlock (.inl rfl) rfl
      · exact Follows.keep hv hI (hunlock (.inr rfl) ih)
    · rename_i hcurrent
      rw [if_neg hcurrent] at hw
      subst hw
      exact hunlock (.inl rfl) rfl

def Posting : PostCall → Prop
  | .hosted (.plain (.host _ _)) => True
  | .hosted (.plain (.leave _)) => True
  | .hosted (.plain (.send _)) => True
  | .hosted (.plain _) => False
  | _ => True

instance : DecidablePred Posting := fun o => by
  unfold Posting
  split <;> infer_instance

theorem outline_body {o : PostCall} (ho : Posting o) :
    Quiet Inv (Guard o) i .idle (o.body d id i) := by
  cases o with
  | hosted call =>
    apply quiet_beside
    cases call with
    | removeMember peer => exact spared_removeMember id peer
    | issueTicket grantedCap expiryMs mint => exact spared_issueTicket d id grantedCap expiryMs mint
    | revokeTicket ticket => exact spared_revokeTicket id ticket
    | plain call =>
      cases call with
      | host call passes => exact (spared_host d id call passes).bind fun _ => trivial
      | leave peer => exact (spared_leave id peer).bind fun _ => trivial
      | send draft => exact (spared_send d id draft).bind fun _ => trivial
      | _ => exact ho.elim
  | admission peer claim => exact (outline_admitAndDeliver d id peer claim).andThen fun _ => rfl
  | publish envelope order =>
    exact (outline_publishWorkspaceTicket d id envelope order).andThen fun _ => rfl
  | task k =>
    refine Quiet.andThen (Quiet.andThen (Quiet.waitFor fun _ w V hI _ _ => ?_) fun found => ?_)
      fun _ => rfl
    · exact hI.keeps (.of_eq rfl rfl) rfl rfl
    · cases found with
      | none => rfl
      | some t => exact outline_runDeliveryWithRetry k t _

end Outlines

section Runs

variable {ed : Ed25519} (d : Daemon ed) (id : SessionId)

/-- An envelope that reaches a peer after the one that replaced it was published again. -/
def NeverStale (facts : List PostFact) : Prop :=
  ∀ before mid x y z h₁ h₂ h₃ h₄ old new target,
    facts = before ++ .published h₁ old :: (mid ++ .published h₂ new ::
      (x ++ .delivered h₃ target new :: (y ++ .delivered h₄ target old :: z))) →
    old ≠ new → ∃ h, .published h old ∈ mid ++ x ++ y

theorem inv_start {s : World} (hbound : ∀ h, s.sessions = some h → h < s.nextHandle)
    (hnone : ∀ h, s.sessions ≠ some h → (s.cells h).session.workspaceTicket = none) :
    Inv (s, Post.start s) fun _ => .idle := by
  cases hstart : s.sessions.bind fun h =>
      (s.cells h).session.workspaceTicket.map (PostFact.published h) with
  | none =>
    have hfacts : (Post.start s).facts = [] := by simp only [Post.start, hstart, Option.toList]
    refine ⟨fun h => ?_, ?_, ?_, fun _ => trivial⟩
    · rw [hfacts]
      by_cases hh : s.sessions = some h
      · simpa [hh, lastPublished] using hstart
      · exact hnone h hh
    · simp [hfacts]
    · rw [hfacts]
      exact ⟨List.Pairwise.nil, by simp⟩
  | some f =>
    have hfacts : (Post.start s).facts = [f] := by simp only [Post.start, hstart, Option.toList]
    obtain ⟨k, hk, hf⟩ := Option.bind_eq_some_iff.mp hstart
    obtain ⟨envelope, hticket, rfl⟩ := Option.map_eq_some_iff.mp hf
    refine ⟨fun h => ?_, fun f hf => ?_, ?_, fun _ => trivial⟩
    · rw [hfacts]
      by_cases hh : k = h
      · subst hh
        simpa [lastPublished, publishedOn] using hticket
      · rw [hnone h (by rw [hk]; exact fun heq => hh (Option.some.inj heq))]
        simp [lastPublished, publishedOn, hh]
    · rw [hfacts, List.mem_singleton] at hf
      rw [hf]
      exact hbound k hk
    · rw [hfacts]
      refine ⟨List.pairwise_singleton _ _, fun before after h target e heq => ?_⟩
      have hmem : PostFact.delivered h target e ∈ [PostFact.published k envelope] := heq ▸ by simp
      simp at hmem

theorem inv_load {blank : Session} (hblank : blank.workspaceTicket = none) (disk : Disk) :
    Inv (Registry.load d id blank disk, Post.start (Registry.load d id blank disk))
      fun _ => .idle := by
  unfold Registry.load
  split
  · exact inv_start nofun fun _ _ => hblank
  rename_i r disk' _
  refine inv_start (fun h hh => ?_) fun h hh => ?_
  · cases hh
    exact Nat.one_pos
  · have hcell : ((World.empty blank disk').insert (.fromRecord r)).cells h =
        (World.empty blank disk').cells h :=
      Function.update_of_ne (fun heq => hh (by rw [heq]; rfl)) ..
    rw [hcell]
    exact hblank

/-- On the newest session, an envelope that follows its successor was republished. -/
theorem delivered_in_order {blank : Session} (hblank : blank.workspaceTicket = none) (disk : Disk)
    {hs : List PostEvent}
    (hhs : Along (Pool.happen (PostCall.body d id) fun k => Empty.elim k)
      (Pool.Suits Posting Guard fun _ _ => True)
      ⟨(Registry.load d id blank disk, Post.start (Registry.load d id blank disk)), []⟩ hs) :
    NeverStale (runPost d id (Registry.load d id blank disk) hs).world.2.facts := by
  have hsuited : Pool.Suited Inv Guard (fun _ _ v => v = .idle) .idle
      (runPost d id (Registry.load d id blank disk) hs) :=
    Pool.suited_history (fun _ _ ho => outline_body d id ho) (fun _ _ k => Empty.elim k)
      (Pool.accounted_nil (inv_load d id hblank disk)) hhs
  obtain ⟨V, hI, -⟩ := hsuited
  intro before mid x y z h₁ h₂ h₃ h₄ old new target heq hne
  have horderly := hI.orderly
  rw [heq] at horderly
  exact horderly.republished hne

end Runs

namespace Sample

open Artel.Sample

def performs (i n : ℕ) (o : PostCall) : List PostEvent :=
  .move (.call o) :: List.replicate n (.move (.step i calm))

def resumes (i n : ℕ) (e : Env) : List PostEvent := List.replicate n (.move (.step i e))

/-- The host opens the session, admits a peer and publishes the first envelope. -/
def opening : List PostEvent :=
  performs 0 9 (.hosted (.plain (.host call 1))) ++ performs 1 17 (.admission (info 1) none) ++
    performs 2 9 (.publish [1] [peer 1])

def samplePost (hs : List PostEvent) : Pool PostCall (World × Post) Env Label Answer :=
  runPost daemon session (Registry.load daemon session blank noDisk) (opening ++ hs)

/-- Both envelopes reach the peer, on one session. -/
def replaced : List PostEvent :=
  performs 3 6 (.task 0) ++ performs 4 9 (.publish [2] [peer 1]) ++ performs 5 6 (.task 0)

theorem delivered_in_order_replaced :
    (samplePost replaced).world.2.facts = [.published 0 [1], .delivered 0 (peer 1) [1],
        .published 0 [2], .delivered 0 (peer 1) [2]] ∧
      NeverStale (samplePost replaced).world.2.facts := by
  refine ⟨by decide +kernel, ?_⟩
  unfold samplePost
  exact delivered_in_order daemon session rfl noDisk (by decide +kernel)

/-- The task of `[1]` goes on after a re-host has delivered `[2]`. -/
def rehosted : List PostEvent :=
  .move (.call (.task 0)) :: resumes 3 6 stormy ++ performs 4 9 (.hosted (.plain (.leave (peer 0)))) ++
    performs 5 9 (.hosted (.plain (.host call 1))) ++ performs 6 17 (.admission (info 1) none) ++
    performs 7 9 (.publish [2] [peer 1]) ++ performs 8 6 (.task 0) ++ resumes 3 5 calm

/-- The old session's envelope reaches the peer after the new one's. -/
theorem stale_after_rehost :
    (samplePost rehosted).world.2.facts = [.published 0 [1], .published 1 [2],
        .delivered 1 (peer 1) [2], .delivered 0 (peer 1) [1]] ∧
      ¬ NeverStale (samplePost rehosted).world.2.facts := by
  have hfacts : (samplePost rehosted).world.2.facts = [.published 0 [1], .published 1 [2],
      .delivered 1 (peer 1) [2], .delivered 0 (peer 1) [1]] := by
    decide +kernel
  refine ⟨hfacts, fun h => ?_⟩
  rw [hfacts] at h
  obtain ⟨k, hk⟩ := h [] [] [] [] [] 0 1 1 0 [1] [2] (peer 1) rfl (by decide)
  cases hk

end Sample

end Artel.Delivering
