import Artel.Registry.LedgerInvariant

namespace Artel.Ledger

open Store Registry Artel.Fiber Function

def writtenUnder : Label → Option Handle
  | .write h => some h
  | _ => none

/-- A failed store leaves of a ticket nothing, the old, or the lock holder's new. -/
def Guard (l : Label) (e : Env) (w : World × Record) : Prop :=
  ∀ err disk, e.fault = some (err, disk) → ∀ t,
    (books w.1).Filed (writtenUnder l) (Unlisted w.1 w.2) t (statuses t (storedLedger disk))

variable {ed : Ed25519} (d : Daemon ed) (id : SessionId)

/-- An outline of a part of the call `o` with index `i`, with its notes. -/
abbrev Outline {α : Type} (i : ℕ) (o : HostedCall) (Q : α → View → Prop) (a : Async α) (v : View) :
    Prop :=
  Follows (Inv d id) Guard i Q (a.observe (note i o)) v

def silent : Label → Bool
  | .clock => false
  | .write _ => false
  | .unlock _ => false
  | _ => true

theorem note_silent (i : ℕ) {o : HostedCall} {l : Label} (hl : silent l = true) (e : Env)
    (s s' : World) (r : Record) : note i o l e s s' r = r := by
  cases l with
  | clock => cases hl
  | write h => cases hl
  | unlock h => cases hl
  | _ => cases o with
    | plain call => cases call <;> rfl
    | _ => rfl

theorem Inv.elsewhere {s s' : World} {r : Record} {V : ℕ → View} (hI : Inv d id (s, r) V)
    (hsessions : ∀ k, s'.sessions = some k → s.sessions = some k)
    (hnext : s'.nextHandle = s.nextHandle) (hcells : ∀ k, (s'.cells k).session = (s.cells k).session ∧
      (s'.cells k).holder = (s.cells k).holder)
    (hdisk : storedLedger s'.disk = storedLedger s.disk) : Inv d id (s', r) V := by
  have hi := hI.knows 0
  have hstep := hI.regrip (i := 0) s' (V 0).grip hsessions hnext (fun k => (hcells k).1) hdisk
    (fun j _ k hk => by rw [(hcells k).2, hk]) hi.seen
    (fun k y hk => by rw [(hcells k).2]; exact hi.held k y hk) (.inr rfl)
  rwa [update_eq_self] at hstep

variable {d id} {i : ℕ} {o : HostedCall} {mint told : Option TicketId} {p : Phase} {h : Handle} {x : Session}

section Primitives

variable {l : Label} {v : View}

theorem outline_silent {α : Type} {ready : Env → World → Bool}
    {f : Env → World → α × World} (hl : silent l = true)
    (hf : ∀ e s, (∀ k, (f e s).2.sessions = some k → s.sessions = some k) ∧
      (f e s).2.nextHandle = s.nextHandle ∧
      (∀ k, ((f e s).2.cells k).session = (s.cells k).session ∧
        ((f e s).2.cells k).holder = (s.cells k).holder) ∧ (f e s).2.disk = s.disk) :
    Outline d id i o (fun _ w => w = v) (waitFor l ready f) v := by
  apply Follows.waitForObserve
  intro s r V e hI hv _ _
  obtain ⟨hsessions, hnext, hcells, hdisk⟩ := hf e s
  rw [note_silent i hl]
  refine ⟨v, ?_, rfl⟩
  rw [← hv, update_eq_self]
  exact hI.elsewhere d id hsessions hnext hcells (by rw [hdisk])

theorem outline_emit (k : Handle) (event : Event) (v : View) :
    Outline d id i o (fun _ w => w = v) (emit k event) v := by
  apply outline_silent rfl
  intro e s
  refine ⟨fun _ h => h, rfl, fun k' => ?_, rfl⟩
  by_cases hk : k' = k
  · subst hk
    rw [World.modify_cells_self]
    exact ⟨rfl, rfl⟩
  · rw [World.modify_cells_of_ne _ _ hk]
    exact ⟨rfl, rfl⟩

theorem outline_tables {α : Type} {ready : Env → World → Bool}
    {f : Env → World → α × World} (v : View) (hl : silent l = true)
    (hf : ∀ e s, (f e s).2.sessions = s.sessions ∧ (f e s).2.nextHandle = s.nextHandle ∧
      (f e s).2.cells = s.cells ∧ (f e s).2.disk = s.disk) :
    Outline d id i o (fun _ w => w = v) (waitFor l ready f) v := by
  apply outline_silent hl
  intro e s
  obtain ⟨hsessions, hnext, hcells, hdisk⟩ := hf e s
  exact ⟨fun k hk => hsessions ▸ hk, hnext, fun k => by rw [hcells]; exact ⟨rfl, rfl⟩, hdisk⟩

theorem outline_unpublish (k : Handle) (v : View) :
    Outline d id i o (fun _ w => w = v) (unpublishAs (.unpublish k)) v := by
  apply outline_silent rfl
  intro e s
  exact ⟨nofun, rfl, fun _ => ⟨rfl, rfl⟩, rfl⟩

theorem abort_tables (feeds : Option Handle) (s : World) :
    (abort feeds s).sessions = s.sessions ∧ (abort feeds s).nextHandle = s.nextHandle ∧
      (abort feeds s).cells = s.cells ∧ (abort feeds s).disk = s.disk := by
  cases feeds <;> exact ⟨rfl, rfl, rfl, rfl⟩

theorem outline_forget (k : Handle) (v : View) :
    Outline d id i o (fun _ w => w = v) (forget k) v := by
  apply outline_tables v rfl
  intro e s
  split
  · exact abort_tables _ _
  · exact ⟨rfl, rfl, rfl, rfl⟩

theorem outline_hostSession (k : Handle) (v : View) :
    Outline d id i o (fun _ w => w = v) (hostSession k) v := by
  refine (outline_tables v rfl fun e s => ?_).bindObserve ?_
  · split <;> exact ⟨rfl, rfl, rfl, rfl⟩
  rintro reservation w rfl
  cases reservation with
  | none => exact rfl
  | some generation =>
    apply (outline_tables w rfl fun e s => ⟨rfl, rfl, rfl, rfl⟩).bindObserve
    rintro result w' rfl
    cases result with
    | some err =>
      refine (outline_tables w' rfl fun e s => ?_).bindObserve fun _ _ hw => hw
      split <;> exact ⟨rfl, rfl, rfl, rfl⟩
    | none =>
      apply (outline_tables w' rfl fun e s => ⟨rfl, rfl, rfl, rfl⟩).bindObserve
      rintro _ w'' rfl
      refine (outline_tables w'' rfl fun e s => ?_).bindObserve fun _ _ hw => hw
      split
      · exact ⟨rfl, rfl, rfl, rfl⟩
      · exact abort_tables _ _

theorem outline_lookup {g : Grip} :
    Outline d id i o
      (fun a w => a = none ∧ w = ⟨g, mint, none, told, p⟩ ∨
        ∃ h, a = some h ∧ w = ⟨.seen h, mint, none, told, p⟩)
      lookup ⟨g, mint, none, told, p⟩ := by
  apply Follows.waitForObserve
  intro s r V e hI hv _ _
  rw [note_silent i rfl]
  cases hs : s.sessions with
  | none =>
    refine ⟨_, ?_, .inl ⟨rfl, rfl⟩⟩
    rwa [← hv, update_eq_self]
  | some h =>
    have hstep := hI.regrip (i := i) s (.seen h) (fun _ hk => hk) rfl (fun _ => rfl) rfl
      (fun _ _ _ hk => hk) (fun k hk => by cases hk; exact hI.bound h hs) (fun _ _ hk => by cases hk)
      (.inl (by rw [hv]))
    rw [hv] at hstep
    exact ⟨_, hstep, .inr ⟨h, rfl, rfl⟩⟩

theorem outline_lock :
    Outline d id i o (fun x w => w = ⟨.held h x, mint, none, told, p⟩) (lock i h)
      ⟨.seen h, mint, none, told, p⟩ := by
  apply Follows.waitForObserve
  intro s r V e hI hv hready _
  have hfree : (s.cells h).holder = none := Option.isNone_iff_eq_none.mp hready
  have hlt : h < s.nextHandle := (hI.knows i).seen h (by rw [hv])
  rw [note_silent i rfl]
  refine ⟨_, ?_, rfl⟩
  have hstep := hI.regrip (i := i) (s.modify h fun c => { c with holder := some i })
    (.held h (s.cells h).session) (fun _ hk => hk) rfl (fun k => ?_) rfl (fun j _ k hk => ?_)
    (fun _ hk => by cases hk) (fun k y hk => ?_) (.inl (by rw [hv]))
  · rw [hv] at hstep
    exact hstep
  · by_cases hk : k = h
    · rw [hk, World.modify_cells_self]
    · rw [World.modify_cells_of_ne _ _ hk]
  · have hne : k ≠ h := by
      rintro rfl
      cases hfree.symm.trans hk
    rwa [World.modify_cells_of_ne _ _ hne]
  · cases hk
    rw [World.modify_cells_self]
    exact ⟨rfl, rfl, hlt⟩

def toldBy (o : HostedCall) (x : Session) (told : Option TicketId) : Option TicketId :=
  match o with
  | .revokeTicket t => if .revoked ∈ statuses t x.tickets then some t else told
  | _ => told

theorem outline_unlock :
    Outline d id i o (fun _ w => w = ⟨.seen h, mint, none, toldBy o x told, p⟩) (unlock h)
      ⟨.held h x, mint, none, told, p⟩ := by
  apply Follows.onceObserve
  intro s r V e hI hv _
  refine ⟨_, ?_, rfl⟩
  obtain ⟨hholder, hsession, hlt⟩ := (hI.knows i).held h x (by rw [hv])
  have hx : (s.cells h).session = x := hsession
  -- the note is made of the session as it is, then the lock is free
  have hnote : Inv d id (s, note i o (.unlock h) e s (s.modify h fun c => { c with holder := none }) r)
      (update V i ⟨.held h x, mint, none, toldBy o x told, p⟩) := by
    have hsame : Inv d id (s, r) (update V i ⟨.held h x, mint, none, told, p⟩) := by
      rwa [← hv, update_eq_self]
    cases o with
    | revokeTicket t =>
      simp only [note, toldBy, hx]
      split
      · rename_i hrevoked
        have hstep := hI.revoked (i := i) (h := h) (by rw [hx]; exact hrevoked)
        rw [hv] at hstep
        exact hstep
      · exact hsame
    | plain call => cases call <;> exact hsame
    | _ => exact hsame
  have hstep := hnote.regrip (i := i) (s.modify h fun c => { c with holder := none })
    (.seen h) (fun _ hk => hk) rfl (fun k => ?_) rfl (fun j hj k hk => ?_)
    (fun _ hk => by cases hk; exact hlt) (fun _ _ hk => by cases hk) (.inl (by rw [update_self]))
  · rw [update_self, update_idem] at hstep
    exact hstep
  · by_cases hk : k = h
    · rw [hk, World.modify_cells_self]
    · rw [World.modify_cells_of_ne _ _ hk]
  · have hne : k ≠ h := by
      rintro rfl
      rw [hholder] at hk
      exact hj (Option.some.inj hk).symm
    rwa [World.modify_cells_of_ne _ _ hne]

theorem outline_check (peer : PeerInfo) (claim : Option CapClaim) :
    Outline d id i (.plain (.ensureMember peer claim))
      (fun n w => w = ⟨.none, mint, none, told, .checked n⟩) clock ⟨.none, mint, none, told, .idle⟩ := by
  apply Follows.onceObserve
  intro s r V e hI hv _
  have hstep := hI.clock (i := i) e.nowMs (.checked e.nowMs) (by simp [hv])
    (fun m hm => by cases hm; rfl)
  rw [hv] at hstep
  exact ⟨_, hstep, rfl⟩

theorem outline_clock (hp : ∀ m, v.phase ≠ .checked m) :
    Outline d id i o (fun _ w => w = v) clock v := by
  apply Follows.onceObserve
  intro s r V e hI hv _
  refine ⟨v, ?_, rfl⟩
  rw [← hv, update_eq_self]
  cases o with
  | plain call =>
    cases call with
    | ensureMember peer claim =>
      have hstep := hI.clock (i := i) e.nowMs (V i).phase Iff.rfl fun m hm => absurd (hv ▸ hm) (hp m)
      rwa [update_eq_self] at hstep
    | _ => exact hI
  | _ => exact hI

theorem outline_store {α : Type} {op : Disk → IoResult α}
    {Q : Except IoError α → View → Prop}
    (hnote : ∀ e s s' r V, Inv d id (s, r) V → V i = v → note i o l e s s' r = r)
    (hmine : v.grip.handle = writtenUnder l) (hnone : v.revoke = none)
    (hok : ∀ s r V, Inv d id (s, r) V → V i = v → ∃ revoke,
      (∀ t, (books s).Filed v.grip.handle (Unlisted s r) t (statuses t (storedLedger (op s.disk).2))) ∧
      (∀ t, revoke = some t → ∃ h x, v.grip = .held h x ∧ statuses t x.tickets ≠ [] ∧
        .active ∉ statuses t (storedLedger (op s.disk).2)) ∧
      Q (op s.disk).1 { v with revoke := revoke })
    (herr : ∀ err, Q (.error err) v) : Outline d id i o Q (store l op) v := by
  apply Follows.onceObserve
  intro s r V e hI hv hguard
  rw [hnote e s _ r V hI hv]
  cases hf : e.fault with
  | some fault =>
    obtain ⟨err, disk⟩ := fault
    refine ⟨v, ?_, herr err⟩
    have hfiled : ∀ t, (books s).Filed (V i).grip.handle (Unlisted s r) t
        (statuses t (storedLedger disk)) := by
      rw [hv, hmine]
      exact hguard err disk hf
    have hstep := hI.file hfiled none nofun
    rw [hv] at hstep
    obtain ⟨grip, mint, revoke, told, p⟩ := v
    cases hnone
    exact hstep
  | none =>
    obtain ⟨revoke, hfiled, hrevoke, hQ⟩ := hok s r V hI hv
    refine ⟨_, ?_, hQ⟩
    have hstep := hI.file (i := i) (by rw [hv]; exact hfiled) revoke (by rw [hv]; exact hrevoke)
    rw [hv] at hstep
    exact hstep

theorem outline_store_kept {α : Type} {op : Disk → IoResult α}
    (hnote : ∀ e s s' r V, Inv d id (s, r) V → V i = v → note i o l e s s' r = r)
    (hmine : v.grip.handle = writtenUnder l) (hnone : v.revoke = none)
    (hop : ∀ disk, storedLedger (op disk).2 = storedLedger disk) :
    Outline d id i o (fun _ w => w = v) (store l op) v := by
  apply outline_store hnote hmine hnone
  · intro s r V hI hv
    refine ⟨none, fun t => ?_, nofun, ?_⟩
    · rw [hop]
      exact .kept
    · obtain ⟨grip, mint, revoke, told, p⟩ := v
      cases hnone
      rfl
  · exact fun _ => rfl

/-- A call's writes are not noted, but an admission's first. -/
def Past (o : HostedCall) (p : Phase) : Prop :=
  ∀ peer claim, o = .plain (.ensureMember peer claim) → p = .storing

theorem note_write (hpast : Past o v.phase) (e : Env) (s s' : World) (r : Record)
    (V : ℕ → View) (hI : Inv d id (s, r) V) (hv : V i = v) : note i o (.write h) e s s' r = r := by
  cases o with
  | plain call =>
    cases call with
    | ensureMember peer claim =>
      have hmem : i ∈ r.storing := (hI.knows i).storing.mp (by rw [hv]; exact hpast peer claim rfl)
      simp only [note, if_pos hmem]
    | _ => rfl
  | _ => rfl

theorem outline_write (hpast : Past o p) {op : Disk → IoResult Unit}
    (hop : ∀ disk, storedLedger (op disk).2 = storedLedger disk) :
    Outline d id i o (fun _ w => w = ⟨.held h x, mint, none, told, p⟩) (store (.write h) op)
      ⟨.held h x, mint, none, told, p⟩ :=
  outline_store_kept (note_write hpast) rfl rfl hop

theorem outline_delete (hpast : Past o p) :
    Outline d id i o (fun _ w => w = ⟨.held h x, mint, none, told, p⟩) (store (.write h) delete)
      ⟨.held h x, mint, none, told, p⟩ := by
  apply outline_store (note_write hpast) rfl rfl
  · exact fun s r V hI hv => ⟨none, fun t => .gone, nofun, rfl⟩
  · exact fun _ => rfl

theorem outline_put (hpast : Past o p) {tickets : List TicketEntry}
    (htickets : ∀ t, statuses t tickets = statuses t x.tickets ∨
      mint = some t ∧ (statuses t x.tickets = [] → statuses t tickets = [.active])) :
    Outline d id i o (fun _ w => w = ⟨.held h x, mint, none, told, p⟩)
      (store (.write h) (putTickets tickets)) ⟨.held h x, mint, none, told, p⟩ := by
  apply outline_store (note_write hpast) rfl rfl
  · intro s r V hI hv
    refine ⟨none, fun t => ?_, nofun, rfl⟩
    have hknows := hI.knows i
    rw [hv] at hknows
    have hx : (s.cells h).session = x := (hknows.held h x rfl).2.1
    obtain ⟨e, herr⟩ | ⟨-, hput⟩ := storedLedger_putTickets s.disk tickets
    · rw [herr]
      exact .kept
    rw [hput]
    obtain hsame | ⟨hmint, hminted⟩ := htickets t
    · rw [hsame, ← hx]
      exact .copied rfl
    · have hunlisted : Unlisted s r t := hknows.mint t hmint
      rw [hminted (by rw [← hx]; exact hunlisted.2.1 h)]
      exact .minted hunlisted
  · exact fun _ => rfl

theorem outline_update {revoke : Option TicketId} {f : Session → Session}
    (hf : ∀ t, statuses t (f x).tickets = statuses t x.tickets ∨
      (mint = some t ∧ (statuses t x.tickets = [] → statuses t (f x).tickets = [.active])) ∨
      revoke = some t ∧ statuses t (f x).tickets = [.revoked]) :
    Outline d id i o (fun _ w => w = ⟨.held h (f x), none, none, told, p⟩) (update h f)
      ⟨.held h x, mint, revoke, told, p⟩ := by
  apply Follows.onceObserve
  intro s r V e hI hv _
  rw [note_silent i rfl]
  refine ⟨_, ?_, rfl⟩
  have hi := hI.knows i
  rw [hv] at hi
  obtain ⟨hholder, hsession, hlt⟩ := hi.held h x rfl
  have hx : (s.cells h).session = x := hsession
  have hledger : ∀ k,
      ((s.modify h fun c => { c with session := f c.session }).cells k).session.tickets =
        update (books s).ledger h (f x).tickets k := by
    intro k
    by_cases hk : k = h
    · rw [hk, World.modify_cells_self, update_self, hx]
    · rw [World.modify_cells_of_ne _ _ hk, update_of_ne hk]
      rfl
  apply hI.relist (h := h) (l := (f x).tickets)
  · simp only [books, hledger]
    rfl
  · intro t
    rw [hv]
    obtain hsame | ⟨hm, hactive⟩ | ⟨hr, hrevoked⟩ := hf t
    · rw [hsame, ← hx]
      exact .kept
    · rw [hactive (by rw [← hx]; exact (hi.mint t hm).2.1 h)]
      exact .minted hm
    · rw [hrevoked]
      exact .revoked hr
  · exact fun t _ => ⟨x, by rw [hv]⟩
  · exact hI.bound
  · intro k hk
    have hne : k ≠ h := fun heq => Nat.not_lt.mpr hk (heq ▸ hlt)
    rw [World.modify_cells_of_ne _ _ hne]
    exact hI.spare k hk
  · exact Nat.le_refl _
  · intro j hj k y hk
    have hvi : (V i).grip = .held h x := by rw [hv]
    have hne := (hI.knows i).held_ne (hI.knows j) hj hvi hk
    rw [World.modify_cells_of_ne _ _ hne]
  · rintro t ⟨⟩
  · refine ⟨?_, fun k y hk => ?_, ?_, ?_, hi.told, hi.storing, hi.checked⟩
    · rintro k ⟨⟩
    · cases hk
      rw [World.modify_cells_self]
      exact ⟨hholder, by rw [hx], hlt⟩
    · rintro t ⟨⟩
    · rintro t ⟨⟩

theorem outline_insert (call : HostCall) (floor : UInt64) :
    Outline d id i o (fun _ w => w = ⟨.none, none, none, told, p⟩)
      (insert (createdSession id call floor)) ⟨.none, some call.mint.ticketId, none, told, p⟩ := by
  apply Follows.onceObserve
  intro s r V e hI hv _
  rw [note_silent i rfl]
  refine ⟨_, ?_, rfl⟩
  have hi := hI.knows i
  rw [hv] at hi
  have hcells : ∀ k, k ≠ s.nextHandle → (s.insert (createdSession id call floor)).cells k = s.cells k :=
    fun k hk => update_of_ne hk ..
  apply hI.relist (h := s.nextHandle) (l := [ledgerEntry call])
  · have hledger : (fun k => ((s.insert (createdSession id call floor)).cells k).session.tickets) =
        update (books s).ledger s.nextHandle [ledgerEntry call] := by
      funext k
      by_cases hk : k = s.nextHandle
      · rw [hk, World.insert_cells_self, update_self]
        rfl
      · rw [hcells k hk, update_of_ne hk]
        rfl
    simp only [books] at hledger ⊢
    rw [hledger]
    rfl
  · intro t
    rw [hv]
    by_cases ht : call.mint.ticketId = t
    · subst ht
      rw [← List.nil_append [ledgerEntry call], statuses_mint_self call rfl]
      exact .minted rfl
    · rw [← List.nil_append [ledgerEntry call], statuses_mint call ht]
      have hspare : (books s).ledger s.nextHandle = [] := hI.spare s.nextHandle (Nat.le_refl _)
      rw [← hspare]
      exact .kept
  · intro t ht
    rw [hv] at ht
    cases ht
  · intro k hk
    cases hk
    exact Nat.lt_succ_self _
  · intro k hk
    have hne : k ≠ s.nextHandle := fun heq => absurd hk (by rw [heq]; exact Nat.not_succ_le_self _)
    rw [hcells k hne]
    exact hI.spare k (Nat.le_of_succ_le hk)
  · exact Nat.le_succ _
  · intro j hj k y hk
    exact hcells k (Nat.ne_of_lt ((hI.knows j).held k y hk).2.2)
  · rintro t ⟨⟩
  · refine ⟨?_, ?_, ?_, ?_, hi.told, hi.storing, hi.checked⟩
    · rintro k ⟨⟩
    · rintro k y ⟨⟩
    · rintro t ⟨⟩
    · rintro t ⟨⟩

end Primitives

section Calls

theorem outline_release {α : Type} {a : α} :
    Outline d id i o (fun _ _ => True) ((unlock h).bind fun _ => .ret a)
      ⟨.held h x, mint, none, told, p⟩ :=
  outline_unlock.bindObserve fun _ _ _ => trivial

theorem outline_lockLocalSession :
    Outline d id i o
      (fun a w => (∃ e, a = .error e) ∨ ∃ h x, a = .ok (h, x) ∧ w = ⟨.held h x, mint, none, told, p⟩)
      (lockLocalSession id i) ⟨.none, mint, none, told, p⟩ := by
  apply outline_lookup.bindObserve
  rintro a w (⟨rfl, rfl⟩ | ⟨h, rfl, rfl⟩)
  · exact .inl ⟨_, rfl⟩
  · refine outline_lock.andThenObserve fun x => ?_
    split
    · exact outline_unlock.bindObserve fun _ _ _ => .inl ⟨_, rfl⟩
    · exact .inr ⟨h, x, rfl, rfl⟩

theorem outline_removeMember (peer : PeerId) :
    Outline d id i (.removeMember peer) (fun _ _ => True)
      (Registry.removeMember id i peer) .idle := by
  have hpast : Past (.removeMember peer) .idle := nofun
  apply outline_lockLocalSession.bindObserve
  rintro a w (⟨e, rfl⟩ | ⟨h, x, rfl, rfl⟩)
  · trivial
  dsimp only
  split
  · exact outline_release
  refine (outline_write hpast fun disk => storedLedger_updateMembers disk _).exceptObserve
    (fun _ => outline_release) fun _ => ?_
  refine (outline_update (fun t => .inl rfl)).andThenObserve fun _ => ?_
  refine (outline_emit h _ _).andThenObserve fun _ => ?_
  exact outline_release

theorem outline_leave (peer : PeerId) :
    Outline d id i (.plain (.leave peer)) (fun _ _ => True) (leave id i peer) .idle := by
  have hpast : Past (.plain (.leave peer)) .idle := nofun
  apply outline_lookup.bindObserve
  rintro a w (⟨rfl, rfl⟩ | ⟨h, rfl, rfl⟩)
  · trivial
  refine outline_lock.andThenObserve fun x => ?_
  split
  · exact outline_release
  have hstore : Outline d id i (.plain (.leave peer))
      (fun _ w => w = ⟨.held h x, none, none, none, .idle⟩)
      (store (.write h)
        (if peer = x.host ∨ x.kind = .Remote then delete else Store.removeMember peer))
      ⟨.held h x, none, none, none, .idle⟩ := by
    split
    · exact outline_delete hpast
    · exact outline_write hpast fun disk => storedLedger_updateMembers disk _
  refine hstore.exceptObserve (fun _ => outline_release) fun _ => ?_
  refine (outline_update (fun t => .inl rfl)).andThenObserve fun _ => ?_
  refine (outline_emit h _ _).andThenObserve fun _ => ?_
  refine outline_unlock.andThenObserve fun _ => ?_
  split
  · refine (outline_unpublish h _).andThenObserve fun _ => ?_
    exact (outline_forget h _).bindObserve fun _ _ _ => trivial
  · trivial

theorem statuses_append_mint (call : HostCall) (t : TicketId) :
    statuses t (x.tickets ++ [ledgerEntry call]) = statuses t x.tickets ∨
      some call.mint.ticketId = some t ∧
        (statuses t x.tickets = [] → statuses t (x.tickets ++ [ledgerEntry call]) = [.active]) := by
  by_cases ht : call.mint.ticketId = t
  · subst ht
    exact .inr ⟨rfl, statuses_mint_self call⟩
  · exact .inl (statuses_mint call ht)

theorem outline_issueTicket (grantedCap : Capability) (expiryMs : UInt64) (m : Mint) :
    Outline d id i (.issueTicket grantedCap expiryMs m) (fun _ _ => True)
      (issueTicket d id i grantedCap expiryMs m) ⟨.none, some m.ticketId, none, none, .idle⟩ := by
  have hpast : Past (.issueTicket grantedCap expiryMs m) .idle := nofun
  apply outline_lockLocalSession.bindObserve
  rintro a w (⟨e, rfl⟩ | ⟨h, x, rfl, rfl⟩)
  · trivial
  have hminted := statuses_append_mint (x := x) ⟨d.peerId, grantedCap, expiryMs, m⟩
  refine (outline_put hpast hminted).exceptObserve (fun _ => outline_release) fun _ => ?_
  refine (outline_update fun t => (hminted t).imp_right .inl).andThenObserve fun _ => ?_
  exact outline_release

theorem statuses_of_find {ticket : TicketId} {entry : TicketEntry}
    (h : (x.tickets.find? fun t => t.ticketId = ticket) = some entry) :
    entry.status ∈ statuses ticket x.tickets :=
  mem_statuses (List.mem_of_find?_eq_some h) (by simpa using List.find?_some h)

theorem outline_put_revoked {ticket : TicketId} (hpast : Past o p)
    (hlisted : statuses ticket x.tickets ≠ []) :
    Outline d id i o
      (fun a w => (a = .ok () ∧ statuses ticket (revokeEntry ticket x.tickets) = [.revoked] ∧
          w = ⟨.held h x, mint, some ticket, told, p⟩) ∨
        (∃ e, a = .error e) ∧ w = ⟨.held h x, mint, none, told, p⟩)
      (store (.write h) (putTickets (revokeEntry ticket x.tickets)))
      ⟨.held h x, mint, none, told, p⟩ := by
  apply outline_store (note_write hpast) rfl rfl
  · intro s r V hI hv
    have hknows := hI.knows i
    rw [hv] at hknows
    have hx : (s.cells h).session = x := (hknows.held h x rfl).2.1
    obtain ⟨e, herr⟩ | ⟨hok, hput⟩ := storedLedger_putTickets s.disk (revokeEntry ticket x.tickets)
    · rw [herr]
      exact ⟨none, fun t => .kept, nofun, .inr ⟨⟨e, rfl⟩, rfl⟩⟩
    have hone : (statuses ticket x.tickets).length ≤ 1 := by
      rw [← hx]
      exact (hI.sound ticket).one h
    have hself := statuses_revokeEntry_self hone hlisted
    rw [hput]
    refine ⟨some ticket, fun t => ?_, fun t ht => ?_, .inl ⟨hok, hself, rfl⟩⟩
    · by_cases ht : ticket = t
      · subst ht
        rw [hself]
        exact .revoked rfl (by rw [← hx] at hlisted; exact hlisted)
      · rw [statuses_revokeEntry ht, ← hx]
        exact .copied rfl
    · cases ht
      exact ⟨h, x, rfl, hlisted, by rw [hself]; simp⟩
  · exact fun err => .inr ⟨⟨err, rfl⟩, rfl⟩

theorem outline_revokeTicket (ticket : TicketId) :
    Outline d id i (.revokeTicket ticket) (fun a w => a = .ok .done → w.told = some ticket)
      (revokeTicket id i ticket) .idle := by
  have hpast : Past (.revokeTicket ticket) .idle := nofun
  apply outline_lockLocalSession.bindObserve
  rintro a w (⟨e, rfl⟩ | ⟨h, x, rfl, rfl⟩)
  · exact nofun
  dsimp only
  split
  · exact outline_unlock.bindObserve fun _ _ _ => nofun
  rename_i entry hfind
  have hentry := statuses_of_find hfind
  split
  · rename_i hrevoked
    apply outline_unlock.bindObserve
    rintro _ w rfl _
    rw [hrevoked] at hentry
    exact if_pos hentry
  · apply (outline_put_revoked hpast (List.ne_nil_of_mem hentry)).bindObserve
    rintro result w (⟨rfl, hself, rfl⟩ | ⟨⟨e, rfl⟩, rfl⟩)
    · refine (outline_update (fun t => ?_)).bindObserve ?_
      · by_cases ht : ticket = t
        · subst ht
          exact .inr (.inr ⟨rfl, hself⟩)
        · exact .inl (statuses_revokeEntry ht)
      · rintro _ w rfl
        apply outline_unlock.bindObserve
        rintro _ w rfl _
        exact if_pos (by rw [hself]; simp)
    · exact outline_unlock.bindObserve fun _ _ _ => nofun

theorem outline_sendLocal (hpast : Past o p) (hp : ∀ m, p ≠ .checked m) (draft : Draft) :
    Outline d id i o (fun _ _ => True) (sendLocal d i h draft) ⟨.seen h, mint, none, told, p⟩ := by
  refine outline_lock.andThenObserve fun x => ?_
  refine (outline_clock hp).andThenObserve fun nowMs => ?_
  cases prepareSend d x nowMs draft with
  | error e => exact outline_release
  | ok m =>
    refine (outline_write hpast fun disk => storedLedger_append disk m).exceptObserve
      (fun _ => outline_release) fun _ => ?_
    refine (outline_update (fun t => .inl rfl)).andThenObserve fun _ => ?_
    refine outline_unlock.andThenObserve fun _ => ?_
    refine (outline_emit h _ _).andThenObserve fun _ => ?_
    split
    · trivial
    · exact (outline_tables _ rfl fun e s => ⟨rfl, rfl, rfl, rfl⟩).bindObserve fun _ _ _ => trivial

theorem outline_send (hpast : Past o p) (hp : ∀ m, p ≠ .checked m) {g : Grip} (draft : Draft) :
    Outline d id i o (fun _ _ => True) (send d id i draft) ⟨g, mint, none, told, p⟩ := by
  unfold send
  split
  · trivial
  apply outline_lookup.bindObserve
  rintro a w (⟨rfl, rfl⟩ | ⟨h, rfl, rfl⟩)
  · trivial
  refine outline_lock.andThenObserve fun _ => ?_
  refine outline_unlock.andThenObserve fun _ => ?_
  split
  · trivial
  split
  · unfold forwardRemoteSend
    apply (outline_tables _ rfl fun e s => ⟨rfl, rfl, rfl, rfl⟩).bindObserve
    rintro ack w rfl
    split <;> trivial
  · exact outline_sendLocal hpast hp draft

theorem verifyClaim_ok (hkey : d.signingKey.isSome) {nowMs : UInt64} {claim : CapClaim}
    (h : verifyClaim d id nowMs claim = .ok ()) : Unexpired claim nowMs ∧
      Signing.verifyTicketCap ed d.peerId claim.ticketId id claim.grantedCap claim.expiryMs
        claim.hostEpoch claim.capSig = .ok () := by
  unfold verifyClaim at h
  split at h
  · cases h
  rename_i hexpiry
  have hsome : ¬ d.signingKey.isNone = true := by
    rw [Option.isNone_iff_eq_none]
    exact Option.isSome_iff_ne_none.mp hkey
  rw [if_neg hsome] at h
  split at h
  · cases h
  · rename_i hverify
    refine ⟨?_, hverify⟩
    by_cases hzero : claim.expiryMs = 0
    · exact .inl hzero
    · exact .inr (UInt64.not_le.mp fun hle => hexpiry ⟨hzero, hle⟩)

theorem outline_addMember {nowMs : UInt64} {peer : PeerInfo} {claim : Option CapClaim}
    (hclaim : ∀ c, claim = some c → Unexpired c nowMs ∧ ticketAdmissible x c = true ∧
      Signing.verifyTicketCap ed d.peerId c.ticketId id c.grantedCap c.expiryMs c.hostEpoch c.capSig =
        .ok ()) :
    Outline d id i (.plain (.ensureMember peer claim))
      (fun _ w => w = ⟨.held h x, mint, none, told, .storing⟩)
      (store (.write h) (addMember peer.id)) ⟨.held h x, mint, none, told, .checked nowMs⟩ := by
  apply Follows.onceObserve
  intro s r V e hI hv hguard
  have hnot : i ∉ r.storing := by
    intro hmem
    have hphase := (hI.knows i).storing.mpr hmem
    rw [hv] at hphase
    cases hphase
  -- whatever the write leaves, the admission is noted
  have hadmit : ∀ disk, (∀ t, (books s).Filed (some h) (Unlisted s r) t
        (statuses t (storedLedger disk))) → ∀ s',
      Inv d id ({ s with disk := disk }, note i (.plain (.ensureMember peer claim)) (.write h) e s s' r)
        (update V i ⟨.held h x, mint, none, told, .storing⟩) := by
    intro disk hfiled s'
    simp only [note, if_neg hnot]
    have hfile := hI.file (i := i) (by rw [hv]; exact hfiled) none nofun
    rw [hv] at hfile
    have hstep := hfile.admission (i := i) (h := h) (x := x) peer.id (by rw [update_self])
      (by rw [update_self]) hclaim
    rw [update_self, update_idem] at hstep
    exact hstep
  cases hf : e.fault with
  | some fault =>
    obtain ⟨err, disk⟩ := fault
    exact ⟨_, hadmit disk (hguard err disk hf) _, rfl⟩
  | none =>
    refine ⟨_, hadmit _ (fun t => ?_) _, rfl⟩
    rw [show storedLedger (addMember peer.id s.disk).2 = storedLedger s.disk from
      storedLedger_updateMembers s.disk _]
    exact .kept

theorem outline_noteUse (hpast : Past o p) {tickets : Option (List TicketEntry)}
    (htickets : ∀ l, tickets = some l → ∀ t, statuses t l = statuses t x.tickets) :
    Outline d id i o (fun _ w => ∃ y mint', w = ⟨.held h y, mint', none, told, p⟩) (noteUse h tickets)
      ⟨.held h x, mint, none, told, p⟩ := by
  unfold noteUse
  cases tickets with
  | none => exact ⟨x, mint, rfl⟩
  | some l =>
    refine (outline_update (fun t => .inl (htickets l rfl t))).andThenObserve fun _ => ?_
    refine (outline_put hpast fun t => .inl rfl).andThenObserve fun _ => ?_
    exact ⟨_, _, rfl⟩

theorem outline_ensureMember (hkey : d.signingKey.isSome) (peer : PeerInfo) (claim : Option CapClaim) :
    Outline d id i (.plain (.ensureMember peer claim)) (fun _ _ => True)
      (ensureMember d id i peer claim) .idle := by
  have hpast : Past (.plain (.ensureMember peer claim)) .storing := fun _ _ _ => rfl
  refine (outline_check peer claim).andThenObserve fun nowMs => ?_
  cases hverify : claim.elim (.ok ()) (verifyClaim d id nowMs) with
  | error e => trivial
  | ok _ =>
    apply outline_lookup.bindObserve
    rintro a w (⟨rfl, rfl⟩ | ⟨h, rfl, rfl⟩)
    · trivial
    refine outline_lock.andThenObserve fun x => ?_
    split
    · exact outline_release
    rename_i hadmissible
    split
    · exact outline_release
    have hclaim : ∀ c, claim = some c → Unexpired c nowMs ∧ ticketAdmissible x c = true ∧
        Signing.verifyTicketCap ed d.peerId c.ticketId id c.grantedCap c.expiryMs c.hostEpoch
          c.capSig = .ok () := by
      rintro c rfl
      obtain ⟨hexpiry, hsig⟩ := verifyClaim_ok hkey hverify
      exact ⟨hexpiry, by simpa using hadmissible, hsig⟩
    refine (outline_addMember hclaim).exceptObserve (fun _ => outline_release) fun _ => ?_
    refine (outline_update (fun t => .inl rfl)).andThenObserve fun _ => ?_
    refine (outline_noteUse hpast fun l hl t => ?_).bindObserve ?_
    · split at hl
      · obtain ⟨c, -, hc⟩ := Option.bind_eq_some_iff.mp hl
        exact statuses_recordUse hc
      · cases hl
    · rintro _ w ⟨y, mint', rfl⟩
      refine outline_unlock.andThenObserve fun _ => ?_
      refine (outline_emit h _ _).andThenObserve fun _ => ?_
      split
      · exact (outline_send hpast nofun _).bindObserve fun _ _ _ => trivial
      · trivial

variable {call : HostCall} {passes : ℕ}

theorem outline_hostResume :
    Outline d id i (.plain (.host call passes)) (fun _ _ => True) (hostResume d id i call h)
      ⟨.seen h, some call.mint.ticketId, none, none, .idle⟩ := by
  have hpast : Past (.plain (.host call passes)) .idle := nofun
  refine outline_lock.andThenObserve fun x => ?_
  have hminted := statuses_append_mint (x := x) call
  split
  · exact outline_release
  refine (outline_put hpast hminted).exceptObserve (fun _ => outline_release) fun _ => ?_
  refine (outline_write hpast fun disk => storedLedger_bumpHostEpoch disk _).exceptObserve
    (fun _ => outline_release) fun _ => ?_
  refine (outline_update fun t => (hminted t).imp_right .inl).andThenObserve fun _ => ?_
  refine outline_unlock.andThenObserve fun _ => ?_
  exact (outline_hostSession h _).bindObserve fun _ _ _ => trivial

theorem outline_create (floor : UInt64) :
    Outline d id i (.plain (.host call passes))
      (fun _ w => w = ⟨.none, some call.mint.ticketId, none, none, .idle⟩)
      (store .create (create (createdSession id call floor).record))
      ⟨.none, some call.mint.ticketId, none, none, .idle⟩ := by
  apply outline_store (fun e s s' r V _ _ => note_silent i rfl e s s' r) rfl rfl
  · intro s r V hI hv
    refine ⟨none, fun t => ?_, nofun, rfl⟩
    rw [(storedLedger_created s.disk id call floor).2, ← List.nil_append [ledgerEntry call]]
    by_cases ht : call.mint.ticketId = t
    · subst ht
      rw [statuses_mint_self call rfl]
      exact .minted ((hI.knows i).mint _ (by rw [hv]))
    · rw [statuses_mint call ht]
      exact .gone
  · exact fun _ => rfl

theorem outline_hostCreate :
    Outline d id i (.plain (.host call passes)) (fun _ _ => True) (hostCreate d id call)
      ⟨.none, some call.mint.ticketId, none, none, .idle⟩ := by
  refine (outline_store_kept (fun e s s' r V _ _ => note_silent i rfl e s s' r) rfl rfl
    fun disk => rfl).bindObserve ?_
  rintro result w rfl
  have hrelease : Outline d id i (.plain (.host call passes))
      (fun _ w => w = ⟨.none, some call.mint.ticketId, none, none, .idle⟩) releaseMap
      ⟨.none, some call.mint.ticketId, none, none, .idle⟩ :=
    outline_tables _ rfl fun e s => ⟨rfl, rfl, rfl, rfl⟩
  cases result with
  | error e => exact hrelease.bindObserve fun _ _ _ => trivial
  | ok floor =>
    refine (outline_create floor).exceptObserve (fun _ => hrelease.bindObserve fun _ _ _ => trivial)
      fun _ => ?_
    refine (outline_insert call floor).andThenObserve fun k => ?_
    exact (outline_hostSession k _).bindObserve fun _ _ _ => trivial

theorem outline_host (n : ℕ) :
    Outline d id i (.plain (.host call passes)) (fun _ _ => True) (host d id i call n)
      ⟨.none, some call.mint.ticketId, none, none, .idle⟩ := by
  induction n with
  | zero =>
    intro s V e _ _ hready
    cases hready
  | succ n ih =>
    apply outline_lookup.bindObserve
    rintro a w (⟨rfl, rfl⟩ | ⟨h, rfl, rfl⟩)
    · apply (outline_tables _ rfl fun e s => ⟨rfl, rfl, rfl, rfl⟩).bindObserve
      rintro found w rfl
      cases found with
      | none => exact outline_hostCreate
      | some k =>
        apply (outline_tables _ rfl fun e s => ⟨rfl, rfl, rfl, rfl⟩).bindObserve
        rintro _ w rfl
        exact ih
    · exact outline_hostResume

end Calls

end Artel.Ledger
