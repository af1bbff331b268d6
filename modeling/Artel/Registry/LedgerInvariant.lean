import Artel.Lib.Spares
import Artel.Registry.LedgerBooks

namespace Artel.Ledger

open Store Function List

def mapLedger (s : World) : List TicketEntry :=
  s.sessions.elim [] fun h => (s.cells h).session.tickets

inductive Fact
  /-- A call goes to store a member: its clock, and the session it holds. -/
  | admitted (peer : PeerId) (claim : Option CapClaim) (checkedAt : Option UInt64)
      (kind : SessionKind) (live : Bool) (ledger : List TicketEntry)
  /-- A revocation is over, with the ticket revoked. -/
  | revoked (ticket : TicketId)
  deriving DecidableEq

structure Record where
  /-- The ids of the tickets that calls were given to mint. -/
  minted : List TicketId
  /-- What each call in flight has read from the clock. -/
  clocks : List (ℕ × UInt64)
  /-- The calls in flight that have gone to store their member. -/
  storing : List ℕ
  facts : List Fact

namespace Record

def blank : Record := ⟨[], [], [], []⟩

def cut (r : Record) : Record := { r with clocks := [], storing := [] }

end Record

def mintId : HostedCall → Option TicketId
  | .plain (.host call _) => some call.mint.ticketId
  | .issueTicket _ _ mint => some mint.ticketId
  | _ => none

def arrive (o : HostedCall) (r : Record) : Record :=
  { r with minted := r.minted ++ (mintId o).toList }

/-- The notes of call `i`; an admission's first write stores the member. -/
def note (i : ℕ) : HostedCall → Label → Env → World → World → Record → Record
  | .plain (.ensureMember _ _), .clock, e, _, _, r => { r with clocks := (i, e.nowMs) :: r.clocks }
  | .plain (.ensureMember peer claim), .write h, _, s, _, r =>
    if i ∈ r.storing then r
    else
      { r with
        storing := i :: r.storing
        facts := r.facts ++ [.admitted peer.id claim (r.clocks.lookup i) (s.cells h).session.kind
          (s.sessions = some h) (mapLedger s)] }
  | .revokeTicket ticket, .unlock h, _, s, _, r =>
    if .revoked ∈ statuses ticket (s.cells h).session.tickets then
      { r with facts := r.facts ++ [.revoked ticket] }
    else r
  | _, _, _, _, _, r => r

def Matches (claim : CapClaim) (e : TicketEntry) : Prop :=
  e.ticketId = claim.ticketId ∧ e.status = .active ∧ e.grantedCap = claim.grantedCap ∧
    e.expiryMs = claim.expiryMs

/-- A claim that had not run out at a time; an expiry of zero is none. -/
def Unexpired (claim : CapClaim) (nowMs : UInt64) : Prop :=
  claim.expiryMs = 0 ∨ nowMs < claim.expiryMs

/-- The admission uses the ticket to get into a session of the host's own. -/
def Uses (t : TicketId) : Fact → Prop
  | .admitted _ (some claim) _ .Local _ _ => claim.ticketId = t
  | _ => False

variable {ed : Ed25519} (d : Daemon ed) (id : SessionId)

/-- The host's signature, the expiry, and an active entry if the session is current. -/
def Vouched : Fact → Prop
  | .admitted _ (some claim) checkedAt kind live ledger =>
    Signing.verifyTicketCap ed d.peerId claim.ticketId id claim.grantedCap claim.expiryMs
      claim.hostEpoch claim.capSig = .ok () ∧
    (∃ nowMs, checkedAt = some nowMs ∧ Unexpired claim nowMs) ∧
    (kind = .Local → live = true → ∃ e ∈ ledger, Matches claim e)
  | _ => True

/-- The admissions are vouched for, and none uses a ticket after its revocation. -/
structure Orderly (facts : List Fact) : Prop where
  vouched : ∀ f ∈ facts, Vouched d id f
  later : facts.Pairwise fun f g => ∀ t, f = .revoked t → ¬ Uses t g

inductive Grip
  | none
  | seen (h : Handle)
  | held (h : Handle) (x : Session)

def Grip.handle : Grip → Option Handle
  | .held h _ => some h
  | _ => Option.none

/-- How far an admission has come: it has read the clock, it has gone to store the member. -/
inductive Phase
  | idle
  | checked (nowMs : UInt64)
  | storing
  deriving DecidableEq

/-- Its hold, and the tickets it has yet to list, has stored as revoked, has revoked. -/
structure View where
  grip : Grip
  mint : Option TicketId
  revoke : Option TicketId
  told : Option TicketId
  phase : Phase

def View.idle : View := ⟨.none, none, none, none, .idle⟩

def Unlisted (s : World) (r : Record) (t : TicketId) : Prop :=
  t ∈ r.minted ∧ (∀ h, statuses t (s.cells h).session.tickets = []) ∧ .revoked t ∉ r.facts

structure Knows (s : World) (r : Record) (i : ℕ) (v : View) : Prop where
  seen : ∀ h, v.grip = .seen h → h < s.nextHandle
  held : ∀ h x, v.grip = .held h x →
    (s.cells h).holder = some i ∧ (s.cells h).session = x ∧ h < s.nextHandle
  mint : ∀ t, v.mint = some t → Unlisted s r t
  revoke : ∀ t, v.revoke = some t → ∃ h x, v.grip = .held h x ∧ statuses t x.tickets ≠ [] ∧
    .active ∉ statuses t (storedLedger s.disk)
  told : ∀ t, v.told = some t → .revoked t ∈ r.facts
  storing : v.phase = .storing ↔ i ∈ r.storing
  checked : ∀ nowMs, v.phase = .checked nowMs → r.clocks.lookup i = some nowMs

structure Inv (w : World × Record) (V : ℕ → View) : Prop where
  bound : ∀ h, w.1.sessions = some h → h < w.1.nextHandle
  spare : ∀ h, w.1.nextHandle ≤ h → (w.1.cells h).session.tickets = []
  sound : ∀ t, (books w.1).Sound t
  unminted : ∀ t, t ∉ w.2.minted → (books w.1).Absent t
  dead : ∀ t, .revoked t ∈ w.2.facts → (books w.1).Dead t ∧ t ∈ w.2.minted
  knows : ∀ i, Knows w.1 w.2 i (V i)
  oneMint : ∀ i j t, (V i).mint = some t → (V j).mint = some t → i = j
  orderly : Orderly d id w.2.facts

variable {d id} {s s' : World} {r r' : Record} {V : ℕ → View} {i : ℕ} {v : View}

theorem Knows.held_ne {j : ℕ} {w : View} {h k : Handle} {x y : Session} (hi : Knows s r i v)
    (hj : Knows s r j w) (hij : j ≠ i) (hv : v.grip = .held h x) (hw : w.grip = .held k y) : k ≠ h := by
  rintro rfl
  have hholder := (hj.held k y hw).1
  rw [(hi.held k x hv).1] at hholder
  exact hij (Option.some.inj hholder).symm

theorem knows_update (hother : ∀ j, j ≠ i → Knows s' r' j (V j)) (hself : Knows s' r' i v) (j : ℕ) :
    Knows s' r' j (update V i v j) := by
  by_cases hj : j = i
  · subst hj
    rwa [update_self]
  · rw [update_of_ne hj]
    exact hother j hj

theorem oneMint_update (h : ∀ i j t, (V i).mint = some t → (V j).mint = some t → i = j)
    (hmint : ∀ t, v.mint = some t → (V i).mint = some t) (j k : ℕ) (t : TicketId)
    (hj : (update V i v j).mint = some t) (hk : (update V i v k).mint = some t) :
    j = k := by
  have hback : ∀ n, (update V i v n).mint = some t → (V n).mint = some t := by
    intro n hn
    by_cases hni : n = i
    · rw [hni, update_self] at hn
      rw [hni]
      exact hmint t hn
    · rwa [update_of_ne hni] at hn
  exact h j k t (hback j hj) (hback k hk)

section Steps

variable {x : Session} {h : Handle}

variable (s') in
theorem Inv.regrip (hI : Inv d id (s, r) V) (g : Grip)
    (hsessions : ∀ k, s'.sessions = some k → s.sessions = some k)
    (hnext : s'.nextHandle = s.nextHandle)
    (hsession : ∀ k, (s'.cells k).session = (s.cells k).session)
    (hdisk : storedLedger s'.disk = storedLedger s.disk)
    (hholder : ∀ j, j ≠ i → ∀ k, (s.cells k).holder = some j → (s'.cells k).holder = some j)
    (hseen : ∀ k, g = .seen k → k < s.nextHandle)
    (hheld : ∀ k y, g = .held k y →
      (s'.cells k).holder = some i ∧ (s.cells k).session = y ∧ k < s.nextHandle)
    (hrevoke : (V i).revoke = none ∨ g = (V i).grip) :
    Inv d id (s', r) (update V i { V i with grip := g }) := by
  have hbooks : books s' = books s := by
    simp only [books, hsession, hdisk]
  have hunlisted : ∀ t, Unlisted s r t → Unlisted s' r t := fun t ht =>
    ⟨ht.1, fun k => by rw [hsession]; exact ht.2.1 k, ht.2.2⟩
  have hi := hI.knows i
  refine ⟨fun k hk => ?_, fun k hk => ?_, fun t => ?_, fun t ht => ?_, fun t ht => ?_,
    knows_update (fun j hj => ?_) ?_, oneMint_update hI.oneMint fun t ht => ht, hI.orderly⟩
  · rw [hnext]
    exact hI.bound k (hsessions k hk)
  · rw [hsession]
    rw [hnext] at hk
    exact hI.spare k hk
  · rw [hbooks]
    exact hI.sound t
  · rw [hbooks]
    exact hI.unminted t ht
  · rw [hbooks]
    exact hI.dead t ht
  · have hknows := hI.knows j
    refine ⟨fun k hk => ?_, fun k y hk => ?_, fun t ht => hunlisted t (hknows.mint t ht),
      fun t ht => ?_, hknows.told, hknows.storing, hknows.checked⟩
    · rw [hnext]
      exact hknows.seen k hk
    · rw [hnext, hsession]
      obtain ⟨h1, h2⟩ := hknows.held k y hk
      exact ⟨hholder j hj k h1, h2⟩
    · rw [hdisk]
      exact hknows.revoke t ht
  · refine ⟨fun k hk => ?_, fun k y hk => ?_, fun t ht => hunlisted t (hi.mint t ht), fun t ht => ?_,
      hi.told, hi.storing, hi.checked⟩
    · rw [hnext]
      exact hseen k hk
    · rw [hnext, hsession]
      exact hheld k y hk
    · obtain hnone | rfl := hrevoke
      · cases hnone.symm.trans ht
      · rw [hdisk]
        exact hi.revoke t ht

theorem Inv.file (hI : Inv d id (s, r) V) {disk : Disk}
    (hk : ∀ t, (books s).Filed (V i).grip.handle (Unlisted s r) t (statuses t (storedLedger disk)))
    (revoke : Option TicketId)
    (hrevoke : ∀ t, revoke = some t → ∃ h x, (V i).grip = .held h x ∧ statuses t x.tickets ≠ [] ∧
      .active ∉ statuses t (storedLedger disk)) :
    Inv d id ({ s with disk := disk }, r) (update V i { V i with revoke := revoke }) := by
  have hi := hI.knows i
  refine ⟨hI.bound, hI.spare, fun t => (hI.sound t).filed (hk t) fun ht => ht.2.1, fun t ht => ?_,
    fun t ht => ?_, knows_update (fun j hj => ?_) ?_, oneMint_update hI.oneMint fun t ht => ht,
    hI.orderly⟩
  · exact (hI.unminted t ht).filed (hk t) fun hun => ht hun.1
  · exact ⟨(hI.dead t ht).1.filed (hk t) fun hun => hun.2.2 ht, (hI.dead t ht).2⟩
  · have hknows := hI.knows j
    refine ⟨hknows.seen, hknows.held, hknows.mint, fun t ht => ?_, hknows.told, hknows.storing,
      hknows.checked⟩
    obtain ⟨k, y, hgrip, hlisted, hactive⟩ := hknows.revoke t ht
    refine ⟨k, y, hgrip, hlisted, ?_⟩
    obtain ⟨-, hy, -⟩ := hknows.held k y hgrip
    have hfiled := hk t
    generalize statuses t (storedLedger disk) = z at hfiled ⊢
    cases hfiled with
    | gone => simp
    | kept => exact hactive
    | revoked => simp
    | minted hun =>
      rw [← hy, hun.2.1 k] at hlisted
      exact absurd rfl hlisted
    | @copied h hmine =>
      -- the ticket is in the ledger of the session that the other call holds, and in no other
      cases hg : (V i).grip with
      | none => simp [hg, Grip.handle] at hmine
      | seen h' => simp [hg, Grip.handle] at hmine
      | held h' x =>
        obtain rfl : h' = h := by simpa [hg, Grip.handle] using hmine
        have hne := hi.held_ne hknows hj hg hgrip
        have hnil : statuses t ((books s).ledger h') = [] := by
          by_contra hsome
          refine hne ((hI.sound t).place k h' ?_ hsome)
          rw [← hy] at hlisted
          exact hlisted
        simp [hnil]
  · exact ⟨hi.seen, hi.held, hi.mint, hrevoke, hi.told, hi.storing, hi.checked⟩

theorem Inv.relist (hI : Inv d id (s, r) V) {l : List TicketEntry}
    (hbooks : books s' = { books s with ledger := update (books s).ledger h l })
    (hl : ∀ t, (books s).Amended h t ((V i).mint = some t) ((V i).revoke = some t) (statuses t l))
    (hrevoke : ∀ t, (V i).revoke = some t → ∃ x, (V i).grip = .held h x)
    (hbound : ∀ k, s'.sessions = some k → k < s'.nextHandle)
    (hspare : ∀ k, s'.nextHandle ≤ k → (s'.cells k).session.tickets = [])
    (hnext : s.nextHandle ≤ s'.nextHandle)
    (hcells : ∀ j, j ≠ i → ∀ k y, (V j).grip = .held k y → s'.cells k = s.cells k)
    (hmint : ∀ t, v.mint = some t → (V i).mint = some t) (hself : Knows s' r i v) :
    Inv d id (s', r) (update V i v) := by
  have hi := hI.knows i
  have hlisted : ∀ t, (V i).revoke = some t →
      statuses t ((books s).ledger h) ≠ [] ∧ .active ∉ statuses t (books s).stored := by
    intro t ht
    obtain ⟨k, y, hgrip, hlisted, hactive⟩ := hi.revoke t ht
    obtain ⟨x, hx⟩ := hrevoke t ht
    obtain ⟨rfl, rfl⟩ : k = h ∧ y = x := by
      rw [hgrip] at hx
      cases hx
      exact ⟨rfl, rfl⟩
    rw [← (hi.held k y hgrip).2.1] at hlisted
    exact ⟨hlisted, hactive⟩
  have hdisk : storedLedger s'.disk = storedLedger s.disk := congrArg Books.stored hbooks
  have hledger : ∀ k, (s'.cells k).session.tickets = update (books s).ledger h l k := fun k =>
    congrFun (congrArg Books.ledger hbooks) k
  refine ⟨hbound, hspare, fun t => ?_, fun t ht => ?_, fun t ht => ?_,
    knows_update (fun j hj => ?_) hself, oneMint_update hI.oneMint hmint, hI.orderly⟩
  · rw [hbooks]
    exact (hI.sound t).amended (hl t) (fun hm => (hi.mint t hm).2.1) (hlisted t)
  · have habsent := hI.unminted t ht
    rw [hbooks]
    exact habsent.amended (hl t) (fun hm => ht (hi.mint t hm).1)
      fun hr => (hlisted t hr).1 (habsent.1 h)
  · rw [hbooks]
    exact ⟨(hI.dead t ht).1.amended (hl t) fun hm => (hi.mint t hm).2.2 ht, (hI.dead t ht).2⟩
  · have hknows := hI.knows j
    refine ⟨fun k hk => (hknows.seen k hk).trans_le hnext, fun k y hk => ?_, fun t ht => ?_,
      fun t ht => ?_, hknows.told, hknows.storing, hknows.checked⟩
    · rw [hcells j hj k y hk]
      obtain ⟨h1, h2, h3⟩ := hknows.held k y hk
      exact ⟨h1, h2, h3.trans_le hnext⟩
    · obtain ⟨hm, hnone, hrevoked⟩ := hknows.mint t ht
      refine ⟨hm, fun k => ?_, hrevoked⟩
      rw [hledger]
      by_cases hk : k = h
      · subst hk
        rw [update_self]
        have hlt := hl t
        generalize statuses t l = z at hlt ⊢
        cases hlt with
        | kept => exact hnone k
        | minted hmi => exact absurd (hI.oneMint j i t ht hmi) hj
        | revoked hri => exact absurd (hnone k) (hlisted t hri).1
      · rw [update_of_ne hk]
        exact hnone k
    · rw [hdisk]
      exact hknows.revoke t ht

end Steps

section Notes

theorem Inv.clock (hI : Inv d id (s, r) V) (nowMs : UInt64) (p : Phase)
    (hstoring : p = .storing ↔ (V i).phase = .storing) (hchecked : ∀ m, p = .checked m → m = nowMs) :
    Inv d id (s, { r with clocks := (i, nowMs) :: r.clocks })
      (update V i { V i with phase := p }) := by
  have hi := hI.knows i
  refine ⟨hI.bound, hI.spare, hI.sound, hI.unminted, hI.dead, knows_update (fun j hj => ?_) ?_,
    oneMint_update hI.oneMint fun t ht => ht, hI.orderly⟩
  · have hknows := hI.knows j
    refine ⟨hknows.seen, hknows.held, hknows.mint, hknows.revoke, hknows.told, hknows.storing, ?_⟩
    intro m hm
    rw [lookup_cons]
    simp only [beq_eq_false_iff_ne.mpr hj]
    exact hknows.checked m hm
  · refine ⟨hi.seen, hi.held, hi.mint, hi.revoke, hi.told, hstoring.trans hi.storing, ?_⟩
    intro m hm
    rw [hchecked m hm]
    simp

theorem mapLedger_of_live {h : Handle} (hlive : decide (s.sessions = some h) = true) :
    mapLedger s = (s.cells h).session.tickets := by
  rw [mapLedger, of_decide_eq_true hlive]
  rfl

theorem exists_matches {x : Session} {claim : CapClaim} (h : ticketAdmissible x claim = true)
    (hkind : x.kind = .Local) : ∃ e ∈ x.tickets, Matches claim e := by
  simpa [ticketAdmissible, hkind, Matches, and_assoc] using h

theorem Inv.admission (hI : Inv d id (s, r) V) {h : Handle} {x : Session} {nowMs : UInt64}
    (peer : PeerId) {claim : Option CapClaim} (hgrip : (V i).grip = .held h x)
    (hphase : (V i).phase = .checked nowMs)
    (hclaim : ∀ c, claim = some c → Unexpired c nowMs ∧ ticketAdmissible x c = true ∧
      Signing.verifyTicketCap ed d.peerId c.ticketId id c.grantedCap c.expiryMs c.hostEpoch c.capSig =
        .ok ()) :
    Inv d id
      (s, { r with
        storing := i :: r.storing
        facts := r.facts ++ [.admitted peer claim (r.clocks.lookup i) (s.cells h).session.kind
          (s.sessions = some h) (mapLedger s)] })
      (update V i { V i with phase := .storing }) := by
  have hi := hI.knows i
  obtain ⟨-, hx, -⟩ := hi.held h x hgrip
  have hfacts : ∀ t f, Fact.revoked t ∈ r.facts ++ [.admitted peer claim f
      (s.cells h).session.kind (s.sessions = some h) (mapLedger s)] ↔ .revoked t ∈ r.facts := by
    simp
  have hunlisted : ∀ t f, Unlisted s r t → Unlisted s { r with
      storing := i :: r.storing
      facts := r.facts ++ [.admitted peer claim f (s.cells h).session.kind
        (s.sessions = some h) (mapLedger s)] } t := fun t f ht =>
    ⟨ht.1, ht.2.1, fun hmem => ht.2.2 ((hfacts t f).mp hmem)⟩
  refine ⟨hI.bound, hI.spare, hI.sound, hI.unminted, fun t ht => hI.dead t ((hfacts t _).mp ht),
    knows_update (fun j hj => ?_) ?_, oneMint_update hI.oneMint fun t ht => ht, ⟨?_, ?_⟩⟩
  · have hknows := hI.knows j
    refine ⟨hknows.seen, hknows.held, fun t ht => hunlisted t _ (hknows.mint t ht), hknows.revoke,
      fun t ht => (hfacts t _).mpr (hknows.told t ht), ?_, hknows.checked⟩
    rw [hknows.storing]
    simp [hj]
  · refine ⟨hi.seen, hi.held, fun t ht => hunlisted t _ (hi.mint t ht), hi.revoke,
      fun t ht => (hfacts t _).mpr (hi.told t ht), by simp, fun m hm => ?_⟩
    cases hm
  · intro f hf
    obtain hf | hf := mem_append.mp hf
    · exact hI.orderly.vouched f hf
    rw [mem_singleton.mp hf]
    cases claim with
    | none => trivial
    | some c =>
      obtain ⟨hexpiry, hadmissible, hsig⟩ := hclaim c rfl
      refine ⟨hsig, ⟨nowMs, hi.checked nowMs hphase, hexpiry⟩, fun hkind hlive => ?_⟩
      rw [mapLedger_of_live hlive, hx]
      exact exists_matches hadmissible (by rw [← hx]; exact hkind)
  · refine pairwise_append.mpr ⟨hI.orderly.later, pairwise_singleton _ _, ?_⟩
    intro f hf g hg t hft huses
    -- a revoked ticket is active in no ledger, so the session would not have let it in
    subst hft
    rw [mem_singleton.mp hg] at huses
    cases claim with
    | none => exact huses
    | some c =>
      rw [hx] at huses
      unfold Uses at huses
      split at huses
      · rename_i heq
        simp only [Fact.admitted.injEq, Option.some.injEq] at heq
        obtain ⟨-, rfl, -, hkind, -⟩ := heq
        obtain ⟨e, he, ht, hactive, -⟩ := exists_matches (hclaim _ rfl).2.1 hkind
        have hmem := mem_statuses he (ht.trans huses)
        rw [hactive, ← hx] at hmem
        exact (hI.dead t hf).1.1 h hmem
      · exact huses

theorem Inv.revoked (hI : Inv d id (s, r) V) {h : Handle} {t : TicketId}
    (hrevoked : .revoked ∈ statuses t (s.cells h).session.tickets) :
    Inv d id (s, { r with facts := r.facts ++ [.revoked t] })
      (update V i { V i with told := some t }) := by
  have hi := hI.knows i
  have hunlisted : ∀ t', Unlisted s r t' →
      Unlisted s { r with facts := r.facts ++ [.revoked t] } t' := by
    intro t' ht'
    refine ⟨ht'.1, ht'.2.1, fun hmem => ?_⟩
    obtain hmem | hmem := mem_append.mp hmem
    · exact ht'.2.2 hmem
    · cases mem_singleton.mp hmem
      rw [ht'.2.1 h] at hrevoked
      cases hrevoked
  have htold : ∀ t', .revoked t' ∈ r.facts → .revoked t' ∈ r.facts ++ [.revoked t] := fun t' ht' =>
    mem_append_left _ ht'
  refine ⟨hI.bound, hI.spare, hI.sound, hI.unminted, fun t' ht' => ?_,
    knows_update (fun j hj => ?_) ?_, oneMint_update hI.oneMint fun t ht => ht, ⟨?_, ?_⟩⟩
  · obtain ht' | ht' := mem_append.mp ht'
    · exact hI.dead t' ht'
    · cases mem_singleton.mp ht'
      refine ⟨(hI.sound t).spent h hrevoked, ?_⟩
      by_contra hminted
      have hnone : statuses t (s.cells h).session.tickets = [] := (hI.unminted t hminted).1 h
      rw [hnone] at hrevoked
      cases hrevoked
  · have hknows := hI.knows j
    exact ⟨hknows.seen, hknows.held, fun t' ht' => hunlisted t' (hknows.mint t' ht'), hknows.revoke,
      fun t' ht' => htold t' (hknows.told t' ht'), hknows.storing, hknows.checked⟩
  · refine ⟨hi.seen, hi.held, fun t' ht' => hunlisted t' (hi.mint t' ht'), hi.revoke,
      fun t' ht' => ?_, hi.storing, hi.checked⟩
    cases ht'
    simp
  · intro f hf
    obtain hf | hf := mem_append.mp hf
    · exact hI.orderly.vouched f hf
    · rw [mem_singleton.mp hf]
      trivial
  · refine pairwise_append.mpr ⟨hI.orderly.later, pairwise_singleton _ _, ?_⟩
    intro f hf g hg t' hft huses
    rw [mem_singleton.mp hg] at huses
    exact huses

theorem Inv.call (hI : Inv d id (s, r) V) {o : HostedCall} (hidle : V i = .idle)
    (hfresh : ∀ t, mintId o = some t → t ∉ r.minted) :
    Inv d id (s, arrive o r) (update V i { View.idle with mint := mintId o }) := by
  have hminted : ∀ t, t ∈ r.minted → t ∈ (arrive o r).minted := fun t ht => mem_append_left _ ht
  have hnew : ∀ t, mintId o = some t → Unlisted s (arrive o r) t := by
    intro t ht
    refine ⟨?_, (hI.unminted t (hfresh t ht)).1, fun hmem => hfresh t ht (hI.dead t hmem).2⟩
    simp [arrive, ht]
  have hi := hI.knows i
  rw [hidle] at hi
  refine ⟨hI.bound, hI.spare, hI.sound, fun t ht => hI.unminted t fun h => ht (hminted t h),
    fun t ht => ⟨(hI.dead t ht).1, hminted t (hI.dead t ht).2⟩, knows_update (fun j hj => ?_) ?_, ?_,
    hI.orderly⟩
  · have hknows := hI.knows j
    refine ⟨hknows.seen, hknows.held, fun t ht => ?_, hknows.revoke, hknows.told, hknows.storing,
      hknows.checked⟩
    obtain ⟨h1, h2⟩ := hknows.mint t ht
    exact ⟨hminted t h1, h2⟩
  · exact ⟨hi.seen, hi.held, hnew, hi.revoke, hi.told, hi.storing, hi.checked⟩
  · intro j k t hj hk
    -- a ticket that another call has still to mint is no new one
    have hown : ∀ n, n ≠ i → (update V i { View.idle with mint := mintId o } n).mint = some t →
        mintId o ≠ some t := by
      intro n hn hmint ho
      rw [update_of_ne hn] at hmint
      exact hfresh t ho ((hI.knows n).mint t hmint).1
    by_cases hji : j = i
    · by_cases hki : k = i
      · rw [hji, hki]
      · rw [hji, update_self] at hj
        exact absurd hj (hown k hki hk)
    by_cases hki : k = i
    · rw [hki, update_self] at hk
      exact absurd hk (hown j hji hj)
    · rw [update_of_ne hji] at hj
      rw [update_of_ne hki] at hk
      exact hI.oneMint j k t hj hk

end Notes

end Artel.Ledger
