import Artel.Registry.LedgerOutline

namespace Artel.Ledger

open Store Registry List

section Model

variable {ed : Ed25519} (d : Daemon ed) (id : SessionId) (blank : Session)

/-- The calls of a host: its own, its members' sends, and admissions. -/
def Hosting : HostedCall → Prop
  | .plain (.host _ _) => True
  | .plain (.leave _) => True
  | .plain (.ensureMember _ _) => True
  | .plain (.send _) => True
  | .plain _ => False
  | _ => True

/-- The id that a call is given for a ticket was given to no call before. -/
def Arrives (o : HostedCall) (r : Record) : Prop :=
  Hosting o ∧ ∀ t, mintId o = some t → t ∉ r.minted

/-- Of each ticket a crash leaves in the store what was there, or nothing. -/
def Survives (disk : Disk) (w : World × Record) : Prop :=
  ∀ t, statuses t (storedLedger disk) = [] ∨
    statuses t (storedLedger disk) = statuses t (storedLedger w.1.disk)

abbrev watch : Pool HostedCall (World × Record) Env Label Answer → HostedEvent →
    Pool HostedCall (World × Record) Env Label Answer :=
  Pool.attend (Pool.observed note (HostedCall.body d id))
    (Pool.rebootObserved (fun disk _ => Registry.load d id blank disk) Record.cut) arrive

def start (disk : Disk) : Pool HostedCall (World × Record) Env Label Answer :=
  ⟨(World.empty blank disk, Record.blank), []⟩

def facts (disk : Disk) (hs : List HostedEvent) : List Fact :=
  (hs.foldl (watch d id blank) (start blank disk)).world.2.facts

def Post (o : HostedCall) (a : Answer) (v : View) : Prop :=
  ∀ t, o = .revokeTicket t → a = .ok .done → v.told = some t

variable {d id blank}

theorem outline_body (hkey : d.signingKey.isSome) (i : ℕ) {o : HostedCall} (ho : Hosting o) :
    Follows (Inv d id) Guard i (Post o) (Pool.observed note (HostedCall.body d id) i o)
      { View.idle with mint := mintId o } := by
  cases o with
  | removeMember peer => exact (outline_removeMember peer).mono fun _ _ _ => nofun
  | issueTicket grantedCap expiryMs m =>
    exact (outline_issueTicket grantedCap expiryMs m).mono fun _ _ _ => nofun
  | revokeTicket ticket =>
    apply (outline_revokeTicket ticket).mono
    rintro a w hw t ht hdone
    cases ht
    exact hw hdone
  | plain call =>
    have hret : ∀ {t : Async Outcome} {v : View},
        Outline d id i (.plain call) (fun _ _ => True) t v →
        Outline d id i (.plain call) (Post (.plain call))
          (t.bind fun o => .ret (Outcome.answer o)) v :=
      fun ht => ht.bindObserve fun _ _ _ => nofun
    cases call with
    | host call passes => exact hret (outline_host passes)
    | leave peer => exact hret (outline_leave peer)
    | ensureMember peer claim => exact hret (outline_ensureMember hkey peer claim)
    | send draft =>
      have hpast : Past (.plain (.send draft)) .idle := nofun
      have hidle : ∀ m, Phase.idle ≠ .checked m := nofun
      exact hret (outline_send hpast hidle draft)
    | _ => exact ho.elim

theorem inv_loaded {s : World} {r : Record} {l : List TicketEntry}
    (hbound : ∀ h, s.sessions = some h → h < s.nextHandle)
    (hcells : ∀ h, (s.cells h).session.tickets = [] ∨
      h = 0 ∧ 0 < s.nextHandle ∧ (s.cells h).session.tickets = l)
    (hdisk : storedLedger s.disk = l) (hone : ∀ t, (statuses t l).length ≤ 1)
    (hunminted : ∀ t, t ∉ r.minted → statuses t l = [])
    (hdead : ∀ t, .revoked t ∈ r.facts → .active ∉ statuses t l ∧ t ∈ r.minted)
    (hstoring : r.storing = []) (horderly : Orderly d id r.facts) :
    Inv d id (s, r) fun _ => .idle := by
  subst hdisk
  have hledger : ∀ t h, statuses t (s.cells h).session.tickets = [] ∨
      h = 0 ∧ statuses t (s.cells h).session.tickets = statuses t (storedLedger s.disk) := by
    intro t h
    obtain hnil | ⟨rfl, -, hl⟩ := hcells h
    · exact .inl (by rw [hnil]; rfl)
    · exact .inr ⟨rfl, by rw [hl]⟩
  refine ⟨hbound, fun h hh => ?_, fun t => ?_, fun t ht => ⟨fun h => ?_, hunminted t ht⟩,
    fun t ht => ⟨⟨fun h => ?_, (hdead t ht).1⟩, (hdead t ht).2⟩, fun i => ?_, nofun, horderly⟩
  · obtain hnil | ⟨rfl, hpos, -⟩ := hcells h
    · exact hnil
    · exact absurd hpos (Nat.not_lt.mpr hh)
  · refine Books.sound_of_sole (h := 0) ?_ (fun k hk => ?_) (hone t) fun hmem => ?_
    · obtain hnil | ⟨-, hself⟩ := hledger t 0
      · exact hnil.symm ▸ Nat.zero_le 1
      · exact hself.symm ▸ hone t
    · obtain hnil | ⟨hzero, -⟩ := hledger t k
      · exact hnil
      · exact absurd hzero hk
    · obtain hnil | ⟨-, hself⟩ := hledger t 0
      · cases hnil ▸ hmem
      · exact not_active_of_revoked (hone t) (hself ▸ hmem)
  · obtain hnil | ⟨-, hself⟩ := hledger t h
    · exact hnil
    · exact hself.trans (hunminted t ht)
  · obtain hnil | ⟨-, hself⟩ := hledger t h
    · intro hmem
      cases hnil ▸ hmem
    · intro hmem
      exact (hdead t ht).1 (hself ▸ hmem)
  · refine ⟨nofun, nofun, nofun, nofun, nofun, ?_, nofun⟩
    simp [View.idle, hstoring]

theorem inv_load (htickets : blank.tickets = []) {s : World} {r : Record} {V : ℕ → View} {disk : Disk}
    (hI : Inv d id (s, r) V) (hsurvives : Survives disk (s, r)) :
    Inv d id (Registry.load d id blank disk, r.cut) fun _ => .idle := by
  have hone : ∀ t, (statuses t (storedLedger disk)).length ≤ 1 := by
    intro t
    obtain hnil | hkept := hsurvives t
    · rw [hnil]
      exact Nat.zero_le 1
    · rw [hkept]
      exact (hI.sound t).storedOne
  have hunminted : ∀ t, t ∉ r.minted → statuses t (storedLedger disk) = [] := by
    intro t ht
    obtain hnil | hkept := hsurvives t
    · exact hnil
    · exact hkept.trans (hI.unminted t ht).2
  have hdead : ∀ t, .revoked t ∈ r.facts →
      .active ∉ statuses t (storedLedger disk) ∧ t ∈ r.minted := by
    intro t ht
    refine ⟨?_, (hI.dead t ht).2⟩
    obtain hnil | hkept := hsurvives t
    · rw [hnil]
      simp
    · rw [hkept]
      exact (hI.dead t ht).1.2
  obtain ⟨hdisk, hrecord⟩ := storedLedger_load disk ed id d.signingKey.isSome
  have hempty : ∀ disk' h, ((World.empty blank disk').cells h).session.tickets = [] := fun _ _ =>
    htickets
  unfold Registry.load
  split
  · rename_i e disk' hload
    rw [hload] at hdisk
    exact inv_loaded nofun (fun h => .inl (hempty _ h)) hdisk hone hunminted hdead rfl hI.orderly
  rename_i record disk' hload
  rw [hload] at hdisk hrecord
  refine inv_loaded ?_ (fun h => ?_) hdisk hone hunminted hdead rfl hI.orderly
  · intro h hh
    cases hh
    exact Nat.one_pos
  · by_cases hzero : h = 0
    · subst hzero
      exact .inr ⟨rfl, Nat.one_pos, hrecord record rfl⟩
    · refine .inl ?_
      have hcell : ((World.empty blank disk').insert (.fromRecord record)).cells h =
          (World.empty blank disk').cells h := Function.update_of_ne hzero ..
      rw [hcell]
      exact hempty _ h

theorem inv_start {disk : Disk} (hdisk : storedLedger disk = []) (htickets : blank.tickets = []) :
    Inv d id (start blank disk).world fun _ => .idle :=
  inv_loaded (l := []) nofun (fun _ => .inl htickets) hdisk (fun _ => Nat.zero_le 1) (fun _ _ => rfl)
    nofun rfl ⟨nofun, List.Pairwise.nil⟩

theorem tracked_watch (hkey : d.signingKey.isSome) (htickets : blank.tickets = []) {disk : Disk}
    (hdisk : storedLedger disk = []) {hs : List HostedEvent}
    (hhs : Along (watch d id blank) (Pool.Attends Arrives Guard Survives) (start blank disk) hs) :
    Pool.Tracked (Inv d id) Guard Post .idle (hs.foldl (watch d id blank) (start blank disk)) := by
  refine Pool.tracked_attend (fun s r V n o hI hidle ho => ?_) (fun w V k hI hD => ?_)
    (Pool.tracked_nil (inv_start hdisk htickets)) hhs
  · exact ⟨_, hI.call hidle ho.2, outline_body hkey n ho.1⟩
  · exact inv_load htickets hI hD

variable (d id blank) in
theorem shadows_watch (disk : Disk) (hs : List HostedEvent) :
    Pool.Shadows note (hs.foldl (watch d id blank) (start blank disk))
      (runHosted d id blank (World.empty blank disk) hs) :=
  Pool.shadows_attend hs (Pool.shadows_nil _ _)

variable (d id blank) in
theorem facts_append (disk : Disk) (hs₁ hs₂ : List HostedEvent) :
    ∃ after, facts d id blank disk (hs₁ ++ hs₂) = facts d id blank disk hs₁ ++ after := by
  unfold facts
  rw [foldl_append]
  refine Pool.record_attend (R := fun r r' => ∃ after, r'.facts = r.facts ++ after)
    (fun _ => ⟨[], by simp⟩) ?_ ?_ ?_ ?_ hs₂ (shadows_watch d id blank disk hs₁)
  · rintro r r' r'' ⟨after, hafter⟩ ⟨after', hafter'⟩
    exact ⟨after ++ after', by rw [hafter', hafter, append_assoc]⟩
  · intro i o l e s s' r
    unfold note
    split
    · exact ⟨[], by simp⟩
    · split
      · exact ⟨[], by simp⟩
      · exact ⟨_, rfl⟩
    · split
      · exact ⟨_, rfl⟩
      · exact ⟨[], by simp⟩
    · exact ⟨[], by simp⟩
  · exact fun o r => ⟨[], by simp [arrive]⟩
  · exact fun r => ⟨[], by simp [Record.cut]⟩

/-- The sessions, their ledgers and logs, in memory and in the store, are as they were. -/
def Unchanged (s s' : World) : Prop :=
  s'.disk = s.disk ∧ s'.sessions = s.sessions ∧ ∀ h, (s'.cells h).session = (s.cells h).session

def TurnsDown : SessionError → Prop
  | .ticketExpired => True
  | .invalidCapClaim _ => True
  | .ticketNotAdmissible => True
  | _ => False

/-- The call is an admission with a claim, and the claim is turned down. -/
def TurnedDown (o : HostedCall) (a : Answer) : Prop :=
  (∃ peer claim, o = .plain (.ensureMember peer (some claim))) ∧ ∃ err, a = .error (.session err) ∧
    TurnsDown err

theorem unchanged_refl (s : World) : Unchanged s s := ⟨rfl, rfl, fun _ => rfl⟩

theorem unchanged_holder (s : World) (h : Handle) (holder : Option ℕ) :
    Unchanged s (s.modify h fun c => { c with holder := holder }) := by
  refine ⟨rfl, rfl, fun k => ?_⟩
  by_cases hk : k = h
  · rw [hk, World.modify_cells_self]
  · rw [World.modify_cells_of_ne _ _ hk]

theorem spares_ensureMember (i : ℕ) (peer : PeerInfo) (claim : Option CapClaim) {R : Outcome → Prop}
    (hok : ¬ R (.ok .done)) (hstorage : ∀ e, ¬ R (.error (.storage e))) :
    (ensureMember d id i peer claim).Spares Unchanged R := by
  apply Fiber.spares_act fun _ s => unchanged_refl s
  intro nowMs
  cases claim.elim (.ok ()) (verifyClaim d id nowMs) with
  | error e => trivial
  | ok _ =>
    apply Fiber.spares_act fun _ s => unchanged_refl s
    intro found
    cases found with
    | none => trivial
    | some h =>
      apply Fiber.spares_act fun _ s => unchanged_holder s h (some i)
      intro x
      have hunlock : ∀ a, Fiber.Spares Unchanged R ((unlock h).bind fun _ => .ret a) := fun a =>
        Fiber.spares_act (fun _ s => unchanged_holder s h none) fun _ => trivial
      split
      · exact hunlock _
      split
      · exact hunlock _
      apply Fiber.spares_of_returns
      intro result
      cases result with
      | error e => exact Fiber.returns_bind fun _ => hstorage e
      | ok _ =>
        -- whatever the rest of the call does, it ends well
        refine Fiber.returns_bind fun _ => Fiber.returns_bind fun _ => Fiber.returns_bind fun _ =>
          Fiber.returns_bind fun _ => ?_
        split
        · exact Fiber.returns_bind fun _ => hok
        · exact hok

theorem spares_body (i : ℕ) (o : HostedCall) :
    (HostedCall.body d id i o).Spares Unchanged (TurnedDown o) := by
  by_cases ho : ∃ peer claim, o = .plain (.ensureMember peer (some claim))
  · obtain ⟨peer, claim, rfl⟩ := ho
    apply Fiber.Spares.map
    apply spares_ensureMember
    · rintro ⟨-, err, herr, -⟩
      cases herr
    · rintro e ⟨-, err, herr, hdown⟩
      cases herr
      exact hdown
  · exact (Fiber.returns_of_forall _ fun a ha => ho ha.1).spares

/-- A host's call arrives or a call acts, and no store operation fails. -/
def Steady : HostedEvent → Prop
  | .move (.call o) => Hosting o
  | .move (.step _ e) => e.fault = none
  | .crash _ => False

instance : DecidablePred Hosting := fun o => by
  unfold Hosting
  split <;> infer_instance

instance : DecidablePred Steady
  | .move (.call o) => inferInstanceAs (Decidable (Hosting o))
  | .move (.step _ _) => inferInstanceAs (Decidable (_ = _))
  | .crash _ => inferInstanceAs (Decidable False)

def mints : HostedEvent → List TicketId
  | .move (.call o) => (mintId o).toList
  | _ => []

theorem note_minted (i : ℕ) (o : HostedCall) (l : Label) (e : Env) (s s' : World) (r : Record) :
    (note i o l e s s' r).minted = r.minted := by
  unfold note
  split
  · rfl
  · split <;> rfl
  · split <;> rfl
  · rfl

theorem along_of_steady {hs : List HostedEvent} (hsteady : ∀ x ∈ hs, Steady x)
    {p : Pool HostedCall (World × Record) Env Label Answer}
    {q : Pool HostedCall World Env Label Answer} (hp : Pool.Shadows note p q)
    (hnodup : (p.world.2.minted ++ hs.flatMap mints).Nodup) :
    Along (watch d id blank) (Pool.Attends Arrives Guard Survives) p hs := by
  induction hs generalizing p q with
  | nil => trivial
  | cons x hs ih =>
    have hx := hsteady x mem_cons_self
    have hnext : Pool.Shadows note (watch d id blank p x) (Pool.happen (HostedCall.body d id)
        (fun disk _ => Registry.load d id blank disk) q x) := Pool.shadows_attend [x] hp
    rw [flatMap_cons, ← append_assoc] at hnodup
    refine ⟨?_, ih (fun y hy => hsteady y (mem_cons_of_mem x hy)) hnext ?_⟩
    · cases x with
      | crash k => exact hx.elim
      | move m =>
        cases m with
        | call o =>
          refine ⟨hx, fun t ht hmem => ?_⟩
          have hdisjoint := nodup_append.mp (nodup_append.mp hnodup).1
          exact hdisjoint.2.2 t hmem t (by simp [mints, ht]) rfl
        | step i e =>
          simp only [Pool.Attends, Pool.Meets]
          split
          · intro _ err disk hfault
            cases (hx : e.fault = none).symm.trans hfault
          · trivial
    · cases x with
      | crash k => exact hx.elim
      | move m =>
        cases m with
        | call o => exact hnodup
        | step i e =>
          have hminted := hp.record_step (HostedCall.body d id) (R := fun r r' => r'.minted = r.minted)
            (fun _ => rfl) note_minted i e
          simp only [mints, append_nil] at hnodup
          exact hminted.symm ▸ hnodup

end Model

section Sample

open Sample

def claim : CapClaim :=
  let ticket := mintTicket daemon session call 0
  ⟨ticket.ticketId, ticket.grantedCap, ticket.expiryMs, ticket.hostEpoch, ticket.capSig⟩

def nextCall : HostCall := { call with mint := ⟨⟨⟨List.replicate 16 8, by simp⟩⟩, 0⟩ }

/-- A host, an admission, the revocation of the ticket, and another admission. -/
def inTurn : List HostedEvent :=
  .move (.call (.plain (.host call 1))) :: acts 0 9 ++
    .move (.call (.plain (.ensureMember (info 1) (some claim)))) :: acts 1 20 ++
    .move (.call (.revokeTicket call.mint.ticketId)) :: acts 2 6 ++
    .move (.call (.plain (.ensureMember (info 2) (some claim)))) :: acts 3 4

/-- An admission has looked its session up when the host leaves and hosts the id again. -/
def overtaken : List HostedEvent :=
  .move (.call (.plain (.host call 1))) :: acts 0 9 ++
    .move (.call (.plain (.ensureMember (info 1) (some claim)))) :: acts 1 2 ++
    .move (.call (.plain (.leave (peer 0)))) :: acts 2 8 ++
    .move (.call (.plain (.host nextCall 1))) :: acts 3 9 ++ acts 1 2

end Sample

end Artel.Ledger
