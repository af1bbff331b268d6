import Artel.Bridge.Verdicts
import Artel.Registry.Requests

namespace Artel.SendOnce

open Store Registry Artel.Fiber Function List

inductive View
  | idle
  | received (reqId : Uuid)
  | stored (reqId : Uuid)
  | logged (reqId : Uuid) (m : SessionMessage)

def View.reqId : View → Option Uuid
  | .idle => none
  | .received reqId | .stored reqId | .logged reqId _ => some reqId

def Knows (g : Desk) : View → Prop
  | .idle => True
  | .received reqId => reqId ∉ g.stored ∧ reqId ∉ g.logged.map Prod.fst
  | .stored reqId => reqId ∉ g.logged.map Prod.fst
  | .logged reqId m => (reqId, m) ∈ g.logged

/-- Each request is one call's and has at most one message, that of its ack. -/
structure Inv (w : World × Desk) (V : ℕ → View) : Prop where
  knows : ∀ i, Knows w.2 (V i)
  own : ∀ i j reqId, (V i).reqId = some reqId → (V j).reqId = some reqId → i = j
  delivered : ∀ i reqId, (V i).reqId = some reqId → reqId ∈ w.2.delivered
  known : ∀ reqId, reqId ∈ w.2.stored ∨ reqId ∈ w.2.logged.map Prod.fst → reqId ∈ w.2.delivered
  stored : w.2.stored.Nodup
  logged : (w.2.logged.map Prod.fst).Nodup
  acks : ∀ reqId m, (reqId, .ok m) ∈ w.2.acks → (reqId, m) ∈ w.2.logged

variable {s s' : World} {g : Desk} {V : ℕ → View} {i : ℕ} {reqId : Uuid}

section

variable (hI : Inv (s, g) V)
include hI

theorem Inv.world (s' : World) : Inv (s', g) V :=
  ⟨hI.knows, hI.own, hI.delivered, hI.known, hI.stored, hI.logged, hI.acks⟩

theorem Inv.own_update {v : View} (hv : (V i).reqId = v.reqId) :
    (∀ j k reqId, (update V i v j).reqId = some reqId →
      (update V i v k).reqId = some reqId → j = k) ∧
    ∀ j reqId, (update V i v j).reqId = some reqId → reqId ∈ g.delivered := by
  have hsame : ∀ j, (update V i v j).reqId = (V j).reqId := by
    intro j
    by_cases hj : j = i
    · rw [hj, update_self, hv]
    · rw [update_of_ne hj]
  simp only [hsame]
  exact ⟨hI.own, hI.delivered⟩

theorem Inv.ne {v : View} (hv : V i = v) (hreq : v.reqId = some reqId) {j : ℕ}
    (hj : j ≠ i) {reqId' : Uuid} (hreq' : (V j).reqId = some reqId') : reqId' ≠ reqId := by
  rintro rfl
  exact hj (hI.own j i reqId' hreq' (hv ▸ hreq))

theorem Inv.store (hv : V i = .received reqId) :
    Inv (s', { g with stored := g.stored ++ [reqId] }) (update V i (.stored reqId)) := by
  have hi := hI.knows i
  rw [hv] at hi
  obtain ⟨hown, hdelivered⟩ := hI.own_update (i := i) (v := .stored reqId) (by rw [hv]; rfl)
  refine ⟨fun j => ?_, hown, hdelivered, fun r hr => ?_, ?_, hI.logged, hI.acks⟩
  · by_cases hj : j = i
    · rw [hj, update_self]
      exact hi.2
    · rw [update_of_ne hj]
      have hk := hI.knows j
      cases hview : V j with
      | received r =>
        rw [hview] at hk
        have hne := hI.ne hv rfl hj (by rw [hview]; rfl)
        exact ⟨not_mem_append hk.1 (mt mem_singleton.mp hne), hk.2⟩
      | _ => rw [hview] at hk; exact hk
  · simp only [mem_append, mem_singleton] at hr
    rcases hr with (hr | rfl) | hr
    · exact hI.known r (.inl hr)
    · exact hI.delivered i r (by rw [hv]; rfl)
    · exact hI.known r (.inr hr)
  · rw [nodup_append_comm]
    exact nodup_cons.mpr ⟨hi.1, hI.stored⟩

theorem Inv.log (hv : V i = .stored reqId) (m : SessionMessage) :
    Inv (s', { g with logged := g.logged ++ [(reqId, m)] })
      (update V i (.logged reqId m)) := by
  have hi := hI.knows i
  rw [hv] at hi
  obtain ⟨hown, hdelivered⟩ := hI.own_update (i := i) (v := .logged reqId m) (by rw [hv]; rfl)
  have hids : (g.logged ++ [(reqId, m)]).map Prod.fst = g.logged.map Prod.fst ++ [reqId] := by simp
  refine ⟨fun j => ?_, hown, hdelivered, fun r hr => ?_, hI.stored, ?_, fun r m' h => ?_⟩
  · by_cases hj : j = i
    · rw [hj, update_self]
      exact mem_append_right _ mem_cons_self
    · rw [update_of_ne hj]
      have hk := hI.knows j
      cases hview : V j with
      | idle => trivial
      | received r =>
        rw [hview] at hk
        have hne := hI.ne hv rfl hj (by rw [hview]; rfl)
        refine ⟨hk.1, ?_⟩
        rw [hids]
        exact not_mem_append hk.2 (mt mem_singleton.mp hne)
      | stored r =>
        rw [hview] at hk
        have hne := hI.ne hv rfl hj (by rw [hview]; rfl)
        rw [Knows, hids]
        exact not_mem_append hk (mt mem_singleton.mp hne)
      | logged r m' =>
        rw [hview] at hk
        exact mem_append_left _ hk
  · rw [hids, mem_append, mem_singleton] at hr
    rcases hr with hr | hr | rfl
    · exact hI.known r (.inl hr)
    · exact hI.known r (.inr hr)
    · exact hI.delivered i r (by rw [hv]; rfl)
  · rw [hids, nodup_append_comm]
    exact nodup_cons.mpr ⟨hi, hI.logged⟩
  · exact mem_append_left _ (hI.acks r m' h)

theorem Inv.ack (result : Verdict)
    (hresult : ∀ m, result = .ok m → (reqId, m) ∈ g.logged) :
    Inv (s, { g with acks := g.acks ++ [(reqId, result)] }) V := by
  refine ⟨hI.knows, hI.own, hI.delivered, hI.known, hI.stored, hI.logged, fun r m h => ?_⟩
  rcases mem_append.mp h with h | h
  · exact hI.acks r m h
  · obtain ⟨rfl, hm⟩ := Prod.mk.inj (mem_singleton.mp h)
    exact hresult m hm.symm

theorem Inv.arrive (hnew : reqId ∉ g.delivered) :
    Inv (s, { g with delivered := g.delivered ++ [reqId] })
      (update V i (.received reqId)) := by
  have hother : ∀ j, j ≠ i → (V j).reqId ≠ some reqId :=
    fun j _ hj => hnew (hI.delivered j reqId hj)
  refine ⟨fun j => ?_, fun j k r hj hk => ?_, fun j r hj => ?_,
    fun r hr => mem_append_left _ (hI.known r hr), hI.stored, hI.logged, hI.acks⟩
  · by_cases hj : j = i
    · rw [hj, update_self]
      exact ⟨fun h => hnew (hI.known reqId (.inl h)), fun h => hnew (hI.known reqId (.inr h))⟩
    · rw [update_of_ne hj]
      exact hI.knows j
  · by_cases hji : j = i
    · by_cases hki : k = i
      · rw [hji, hki]
      · rw [hji, update_self] at hj
        rw [update_of_ne hki] at hk
        cases hj
        exact absurd hk (hother k hki)
    · rw [update_of_ne hji] at hj
      by_cases hki : k = i
      · rw [hki, update_self] at hk
        cases hk
        exact absurd hj (hother j hji)
      · rw [update_of_ne hki] at hk
        exact hI.own j k r hj hk
  · by_cases hji : j = i
    · rw [hji, update_self] at hj
      cases hj
      exact mem_append_right _ mem_cons_self
    · rw [update_of_ne hji] at hj
      exact mem_append_left _ (hI.delivered j r hj)

end

/-- The session is hosted here: no send is passed on to another host. -/
def Hosted (l : Label) (_ : Env) (_ : World × Desk) : Prop := l ≠ .forward

instance (l : Label) (e : Env) (w : World × Desk) : Decidable (Hosted l e w) :=
  inferInstanceAs (Decidable (_ ≠ _))

/-- An outline of a part of the call that handles the request `reqId`. -/
abbrev Outline {α : Type} (i : ℕ) (reqId : Uuid) (Q : α → View → Prop) (a : Async α) (v : View) :
    Prop :=
  Follows Inv Hosted i Q (a.observe (Desk.note reqId)) v

theorem outline_silent {α : Type} {l : Label} {ready : Env → World → Bool}
    {f : Env → World → α × World} (v : View)
    (hl : ∀ e s s' g, Desk.note reqId l e s s' g = g) :
    Outline i reqId (fun _ w => w = v) (waitFor l ready f) v := by
  apply Follows.waitForObserve
  intro s g V e hI hv _ _
  refine ⟨v, ?_, rfl⟩
  rw [hl, ← hv, update_eq_self]
  exact hI.world _

variable {ed : Ed25519} (d : Daemon ed) (id : SessionId)

def Sent (reqId : Uuid) (o : Outcome) (v : View) : Prop :=
  ∀ m, o = .ok (.sent m) → v = .logged reqId m

theorem outline_sendLocal (h : Handle) (draft : Draft) :
    Outline i reqId (Sent reqId) (sendLocal d i h draft) (.received reqId) := by
  apply (outline_silent _ fun _ _ _ _ => rfl).bindObserve
  rintro session w rfl
  apply (outline_silent _ fun _ _ _ _ => rfl).bindObserve
  rintro nowMs w rfl
  cases prepareSend d session nowMs draft with
  | error err => exact (outline_silent _ fun _ _ _ _ => rfl).bindObserve fun _ _ _ => nofun
  | ok m =>
    refine Follows.bindObserve (Q := fun _ w => w = .stored reqId) ?_ ?_
    · apply Follows.onceObserve
      intro s g V e hI hv _
      exact ⟨_, hI.store hv, rfl⟩
    rintro result w rfl
    cases result with
    | error err => exact (outline_silent _ fun _ _ _ _ => rfl).bindObserve fun _ _ _ => nofun
    | ok u =>
      refine Follows.bindObserve (Q := fun _ w => w = .logged reqId m) ?_ ?_
      · apply Follows.onceObserve
        intro s g V e hI hv _
        refine ⟨_, ?_, rfl⟩
        have hnew : Sequencer.newMessage (s.cells h).session
            ((s.modify h fun c => { c with session := commitSend c.session m }).cells h).session =
              some m := by
          simp [Sequencer.newMessage, commitSend]
        simp only [Desk.note, hnew]
        exact hI.log hv m
      rintro _ w rfl
      apply (outline_silent _ fun _ _ _ _ => rfl).bindObserve
      rintro _ w rfl
      apply (outline_silent _ fun _ _ _ _ => rfl).bindObserve
      rintro _ w rfl
      split
      · rintro m' ⟨⟩
        rfl
      · apply (outline_silent _ fun _ _ _ _ => rfl).bindObserve
        rintro _ w rfl m' ⟨⟩
        rfl

theorem outline_send (draft : Draft) :
    Outline i reqId (Sent reqId) (send d id i draft) (.received reqId) := by
  unfold send
  split
  · exact nofun
  apply (outline_silent _ fun _ _ _ _ => rfl).bindObserve
  rintro found w rfl
  cases found with
  | none => exact nofun
  | some h =>
    apply (outline_silent _ fun _ _ _ _ => rfl).bindObserve
    rintro session w rfl
    apply (outline_silent _ fun _ _ _ _ => rfl).bindObserve
    rintro _ w rfl
    split
    · exact nofun
    · split
      · intro s V e _ _ _ hhosted
        exact absurd rfl hhosted
      · exact outline_sendLocal d h draft

theorem sent_of_verdict {ioText : IoError → String} {o : Outcome} {m : SessionMessage}
    (h : sendVerdict ioText o = some (.ok m)) : o = .ok (.sent m) := by
  unfold sendVerdict at h
  split at h
  · cases h
    rfl
  · cases h
  · obtain ⟨err, -, herr⟩ := Option.map_eq_some_iff.mp h
    cases herr

theorem follows_handleSendRequest (ioText : IoError → String) (peer : PeerInfo)
    (p : SignedSendPayload) (deliveredFrom : PeerId) :
    Follows Inv Hosted i (fun _ _ => True)
      (handleSendRequest d id ioText i reqId peer p deliveredFrom) (.received reqId) := by
  unfold handleSendRequest
  split
  · trivial
  apply (outline_send d id (requestDraft peer p)).bind
  intro o v hv
  split
  · trivial
  rename_i verdict hverdict
  intro w V e hI hview _ _
  refine ⟨v, ?_, trivial⟩
  rw [← hview, update_eq_self]
  dsimp only
  split
  · refine hI.ack verdict fun m hm => ?_
    have hk := hI.knows i
    rw [hview, hv m (sent_of_verdict (hm ▸ hverdict))] at hk
    exact hk
  · exact hI

theorem follows_plain {α : Type} (a : Async α) :
    Follows Inv Hosted i (fun _ v => v = .idle) (a.observe fun _ _ _ _ g => g) .idle := by
  induction a with
  | ret a => rfl
  | act l ready next rest ih =>
    intro w V e hI hv _ _
    refine ⟨.idle, ?_, ih e w.1⟩
    rw [← hv, update_eq_self]
    exact hI.world _

def Arrives (o : DeskCall) (g : Desk) : Prop := ∀ reqId ∈ o.reqId, reqId ∉ g.delivered

instance (o : DeskCall) (g : Desk) : Decidable (Arrives o g) := by
  unfold Arrives
  infer_instance

/-- In the host's history no request arrives twice; a crash may leave any disk. -/
def Deliveries (ioText : IoError → String) (blank : Session) (s : World) (hs : List DeskEvent) :
    Prop :=
  Along (Pool.attend (DeskCall.body d id ioText)
    (fun disk w => (Registry.load d id blank disk, w.2)) DeskCall.arrive)
    (Pool.Attends Arrives Hosted fun _ _ => True) ⟨(s, Desk.empty), []⟩ hs

instance (ioText : IoError → String) (blank : Session) (s : World) (hs : List DeskEvent) :
    Decidable (Deliveries d id ioText blank s hs) := by
  unfold Deliveries
  infer_instance

theorem inv_empty (s : World) : Inv (s, Desk.empty) fun _ => .idle :=
  ⟨fun _ => trivial, nofun, nofun, by simp [Desk.empty], nodup_nil, nodup_nil, nofun⟩

variable {d id}

theorem tracked_desk {ioText : IoError → String} {blank : Session} {s : World} {hs : List DeskEvent}
    (hhs : Deliveries d id ioText blank s hs) :
    Pool.Tracked Inv Hosted (fun _ _ _ => True) .idle (runDesk d id ioText blank s hs) := by
  refine Pool.tracked_attend (fun s g V n o hI hidle hnew => ?_) (fun w V disk hI _ => ?_)
    (Pool.tracked_nil (inv_empty s)) hhs
  · cases o with
    | request reqId peer payload deliveredFrom =>
      exact ⟨_, hI.arrive (hnew reqId rfl), follows_handleSendRequest d id ioText peer payload _⟩
    | plain call =>
      refine ⟨.idle, ?_, (follows_plain _).bind fun _ _ _ => trivial⟩
      rw [← hidle, update_eq_self]
      have hsame : (DeskCall.plain call).arrive g = g := by simp [DeskCall.arrive, DeskCall.reqId]
      rwa [hsame]
  · exact ⟨fun _ => trivial, nofun, nofun, hI.known, hI.stored, hI.logged, hI.acks⟩

variable (b : Bridge.Config ed) {hostOf : SessionId → PeerId}

/-- Without repeated requests, each has one message at most, and its ack names it. -/
theorem sent_once {ioText : IoError → String} {blank : Session} {s : World} {hs : List DeskEvent}
    (hhs : Deliveries d id ioText blank s hs) {ms : List (Move Bridge.Call Bridge.Env)}
    (hms : Bridge.CallsMeet b hostOf (Bridge.Sound hostOf ed) ms)
    (hacks : ∀ reqId result, Signing.verdictFits result →
      Bridge.Signed hostOf (Bridge.runCalls b hostOf ms).world id reqId result →
      (reqId, result) ∈ (runDesk d id ioText blank s hs).world.2.acks) :
    (runDesk d id ioText blank s hs).world.2.stored.Nodup ∧
    ((runDesk d id ioText blank s hs).world.2.logged.map Prod.fst).Nodup ∧
    ∀ i peer payload m, Signing.verdictFits (.ok m) →
      (Bridge.runCalls b hostOf ms).callAt i = some (.sendRemote id peer payload) →
      (Bridge.runCalls b hostOf ms).result i = some (some (.ok m)) →
      ∃ reqId, ⟨i, id, reqId⟩ ∈ (Bridge.runCalls b hostOf ms).world.requests ∧
        (reqId, m) ∈ (runDesk d id ioText blank s hs).world.2.logged ∧
        ∀ m', (reqId, m') ∈ (runDesk d id ioText blank s hs).world.2.logged → m' = m := by
  obtain ⟨V, hI, -⟩ := tracked_desk hhs
  refine ⟨hI.stored, hI.logged, fun i peer payload m hfits hcall hresult => ?_⟩
  obtain ⟨reqId, -, hrequest, hsigned⟩ := Bridge.exists_request b hms hcall hresult rfl
  have hlogged := hI.acks reqId m (hacks reqId (.ok m) hfits hsigned)
  refine ⟨reqId, hrequest, hlogged, fun m' hm' => ?_⟩
  have heq := inj_on_of_nodup_map hI.logged hm' hlogged rfl
  exact (Prod.mk.inj heq).2

section Sample

open Sample

def sampleText (_ : IoError) : String := "i/o error"

def ticketClaim : CapClaim :=
  let ticket := mintTicket daemon session call 0
  ⟨ticket.ticketId, ticket.grantedCap, ticket.expiryMs, ticket.hostEpoch, ticket.capSig⟩

def deskSteps (i n : ℕ) : List DeskEvent := List.replicate n (.move (.step i calm))

def opening : List DeskEvent :=
  .move (.call (.plain (.plain (.host call 1)))) :: deskSteps 0 9 ++
    .move (.call (.plain (.plain (.ensureMember (info 2) (some ticketClaim))))) :: deskSteps 1 20

def frame : DeskEvent :=
  .move (.call (.request Bridge.request (info 2)
    ⟨Bridge.note, 0, (message 2 2 .chat "note" []).signature⟩ (peer 2)))

def sampleDesk (hs : List DeskEvent) : Pool DeskCall (World × Desk) Env Label Unit :=
  runDesk daemon session sampleText blank (World.empty blank noDisk) (opening ++ hs)

def deliveredOnce : List DeskEvent := frame :: deskSteps 2 14

def sequenced : Verdict := .ok (message 2 2 .chat "note" [])

/-- Peer `2` sends the note and takes the ack of its session's host. -/
def sends : List (Move Bridge.Call Bridge.Env) :=
  [.call (.setSlot session true), .call (.sendRemote session (info 2) Bridge.note),
    .call (.signs (peer 0) (Signing.ackCanonicalBytes session Bridge.request sequenced)),
    .call (.sendAck session Bridge.request sequenced
      (Signing.signAck .checksum (peer 0) session Bridge.request sequenced))] ++
    ([0, 1, 1, 1, 1, 2, 3, 3, 3, 1].map fun i => .step i Bridge.quietly)

theorem sent_once_deliveredOnce :
    ∃ reqId, ⟨1, session, reqId⟩ ∈
        (Bridge.runCalls Bridge.joiner Bridge.sampleHosts sends).world.requests ∧
      (reqId, message 2 2 .chat "note" []) ∈ (sampleDesk deliveredOnce).world.2.logged ∧
      ∀ m', (reqId, m') ∈ (sampleDesk deliveredOnce).world.2.logged →
        m' = message 2 2 .chat "note" [] := by
  have hfits : Signing.verdictFits sequenced :=
    Wire.sessionMessage_fits _ (by decide +kernel)
  have hacked : (sampleDesk deliveredOnce).world.2.acks = [(Bridge.request, sequenced)] := by
    decide +kernel
  have hsigned : (Bridge.runCalls Bridge.joiner Bridge.sampleHosts sends).world.signed =
      [(peer 0, Signing.ackCanonicalBytes session Bridge.request sequenced)] := by
    decide +kernel
  have hhs : Deliveries daemon session sampleText blank (World.empty blank noDisk)
      (opening ++ deliveredOnce) := by
    decide +kernel
  have hms : Bridge.CallsMeet Bridge.joiner Bridge.sampleHosts
      (Bridge.Sound Bridge.sampleHosts .checksum) sends := by
    decide +kernel
  unfold sampleDesk at *
  have hall := sent_once Bridge.joiner hhs hms ?_
  · obtain ⟨-, -, hall⟩ := hall
    have hcall : (Bridge.runCalls Bridge.joiner Bridge.sampleHosts sends).callAt 1 =
        some (.sendRemote session (info 2) Bridge.note) := by
      decide +kernel
    have hresult : (Bridge.runCalls Bridge.joiner Bridge.sampleHosts sends).result 1 =
        some (some (.ok (message 2 2 .chat "note" []))) := by
      decide +kernel
    exact hall 1 (info 2) Bridge.note _ hfits hcall hresult
  intro reqId result hresult hmem
  rw [Bridge.Signed, hsigned, mem_singleton] at hmem
  obtain ⟨-, rfl, rfl⟩ := Signing.ackCanonicalBytes_injective hresult hfits (Prod.mk.inj hmem).2
  rw [hacked]
  exact mem_singleton_self _

def redelivered : Pool DeskCall (World × Desk) Env Label Unit :=
  sampleDesk (frame :: frame :: deskSteps 2 14 ++ deskSteps 3 14)

/-- Both deliveries are sequenced, and each is acked with a message of its own. -/
theorem redelivered_sent_twice :
    ∃ m m', m ≠ m' ∧ redelivered.world.2.logged = [(Bridge.request, m), (Bridge.request, m')] ∧
      redelivered.world.2.acks = [(Bridge.request, .ok m), (Bridge.request, .ok m')] ∧
      m ∈ (redelivered.world.1.cells 0).session.log ∧
      m' ∈ (redelivered.world.1.cells 0).session.log :=
  ⟨message 2 2 .chat "note" [], message 2 3 .chat "note" [], by decide +kernel⟩

end Sample

end Artel.SendOnce
