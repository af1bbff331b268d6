import Artel.Registry.Authority

namespace Artel.Ledger

open Store Function List

def statuses (t : TicketId) (ledger : List TicketEntry) : List TicketStatus :=
  (ledger.filter fun e => e.ticketId = t).map TicketEntry.status

section Statuses

variable {t : TicketId} {ledger : List TicketEntry}

theorem statuses_cons (e : TicketEntry) :
    statuses t (e :: ledger) =
      if e.ticketId = t then e.status :: statuses t ledger else statuses t ledger := by
  unfold statuses
  by_cases h : e.ticketId = t <;> simp [h]

theorem statuses_append_singleton (e : TicketEntry) :
    statuses t (ledger ++ [e]) = statuses t ledger ++ if e.ticketId = t then [e.status] else [] := by
  unfold statuses
  by_cases h : e.ticketId = t <;> simp [h]

theorem statuses_mint (call : HostCall) (h : call.mint.ticketId ≠ t) :
    statuses t (ledger ++ [ledgerEntry call]) = statuses t ledger := by
  have hne : (ledgerEntry call).ticketId ≠ t := h
  rw [statuses_append_singleton, if_neg hne, append_nil]

theorem statuses_mint_self (call : HostCall) (h : statuses call.mint.ticketId ledger = []) :
    statuses call.mint.ticketId (ledger ++ [ledgerEntry call]) = [.active] := by
  have heq : (ledgerEntry call).ticketId = call.mint.ticketId := rfl
  rw [statuses_append_singleton, h, if_pos heq]
  rfl

theorem statuses_revokeEntry {ticket : TicketId} (h : ticket ≠ t) :
    statuses t (Registry.revokeEntry ticket ledger) = statuses t ledger := by
  induction ledger with
  | nil => rfl
  | cons e ledger ih =>
    unfold Registry.revokeEntry
    split
    · rename_i he
      have hne : e.ticketId ≠ t := fun heq => h (he ▸ heq)
      rw [statuses_cons, statuses_cons, if_neg hne, if_neg hne]
    · rw [statuses_cons, statuses_cons, ih]

theorem statuses_revokeEntry_self (hone : (statuses t ledger).length ≤ 1) (h : statuses t ledger ≠ []) :
    statuses t (Registry.revokeEntry t ledger) = [.revoked] := by
  induction ledger with
  | nil => exact absurd rfl h
  | cons e ledger ih =>
    unfold Registry.revokeEntry
    rw [statuses_cons] at hone h
    split
    · rename_i he
      rw [if_pos he, length_cons] at hone
      have hrest : statuses t ledger = [] := length_eq_zero_iff.mp (by omega)
      rw [statuses_cons, if_pos he, hrest]
    · rename_i he
      rw [if_neg he] at hone h
      rw [statuses_cons, if_neg he]
      exact ih hone h

theorem statuses_recordUse {claim : CapClaim} {peer : PeerId} {ledger' : List TicketEntry}
    (h : recordUse claim peer ledger = some ledger') : statuses t ledger' = statuses t ledger := by
  induction ledger generalizing ledger' with
  | nil => cases h
  | cons e ledger ih =>
    unfold recordUse at h
    split at h
    · split at h
      · cases h
      · cases h
        rw [statuses_cons, statuses_cons]
    · obtain ⟨rest, hrest, rfl⟩ := Option.map_eq_some_iff.mp h
      rw [statuses_cons, statuses_cons, ih hrest]

theorem not_active_of_revoked {x : List TicketStatus} (hone : x.length ≤ 1) (h : .revoked ∈ x) :
    .active ∉ x := by
  obtain ⟨y, rfl⟩ := length_eq_one_iff.mp (le_antisymm hone (length_pos_of_mem h))
  rw [← mem_singleton.mp h]
  simp

theorem mem_statuses {e : TicketEntry} (he : e ∈ ledger) (ht : e.ticketId = t) :
    e.status ∈ statuses t ledger :=
  mem_map.mpr ⟨e, mem_filter.mpr ⟨he, by simpa using ht⟩, rfl⟩

end Statuses

/-- All ledgers there are: that of each session in memory, and the one a load would read. -/
structure Books where
  ledger : Handle → List TicketEntry
  stored : List TicketEntry

def storedLedger (disk : Disk) : List TicketEntry :=
  (loadTickets (disk.dir.bind SessionDir.ticketsJson)).1

theorem storedLedger_of_eq {disk disk' : Disk}
    (h : disk'.dir.map SessionDir.ticketsJson = disk.dir.map SessionDir.ticketsJson) :
    storedLedger disk' = storedLedger disk := by
  unfold storedLedger
  congr 1
  cases hd : disk.dir <;> cases hd' : disk'.dir <;> simp_all

section Disk

variable (disk : Disk)

theorem storedLedger_putTickets (tickets : List TicketEntry) :
    (∃ e, putTickets tickets disk = (.error e, disk)) ∨
      (putTickets tickets disk).1 = .ok () ∧ storedLedger (putTickets tickets disk).2 = tickets := by
  unfold putTickets
  split
  · exact .inl ⟨_, rfl⟩
  · exact .inr ⟨rfl, rfl⟩

theorem storedLedger_append (m : SessionMessage) :
    storedLedger (append none m disk).2 = storedLedger disk := by
  apply storedLedger_of_eq
  unfold append
  split
  · rfl
  · rename_i dir hdir
    split
    · simp [hdir]
    · simp only [hdir, Option.map_some, raiseHead]
      split <;> rfl

theorem storedLedger_bumpHostEpoch (epoch : UInt64) :
    storedLedger (bumpHostEpoch epoch disk).2 = storedLedger disk := by
  apply storedLedger_of_eq
  unfold bumpHostEpoch
  split
  · rfl
  · rename_i dir hdir
    split
    · rfl
    · simp [hdir]

theorem storedLedger_updateMembers (f : Finset PeerId → Finset PeerId) :
    storedLedger (updateMembers f disk).2 = storedLedger disk := by
  apply storedLedger_of_eq
  unfold updateMembers
  split
  · rfl
  · rename_i dir hdir
    split
    · rfl
    · simp [hdir]

theorem storedLedger_created (id : SessionId) (call : HostCall) (floor : UInt64) :
    (create (createdSession id call floor).record disk).1 = .ok () ∧
      storedLedger (create (createdSession id call floor).record disk).2 = [ledgerEntry call] :=
  ⟨rfl, rfl⟩

theorem storedLedger_load (ed : Ed25519) (id : SessionId) (verify : Bool) :
    storedLedger (load ed id verify disk).2 = storedLedger disk ∧
      ∀ r, (load ed id verify disk).1 = .ok r → r.tickets = storedLedger disk := by
  have htickets : ∀ file, (loadTickets (loadTickets file).2).1 = (loadTickets file).1 := by
    intro file
    cases file with
    | none => rfl
    | some file => by_cases h : file.version = TICKETS_VERSION <;> simp [loadTickets, h]
  unfold load
  split
  · exact ⟨rfl, fun r hr => by cases hr⟩
  rename_i dir hdir
  simp only [storedLedger, hdir, Option.bind_some, loadOne]
  split
  · exact ⟨rfl, fun r hr => by cases hr⟩
  split
  · exact ⟨rfl, fun r hr => by cases hr⟩
  · split
    · exact ⟨htickets _, fun r hr => by cases hr⟩
    · refine ⟨htickets _, fun r hr => ?_⟩
      cases hr
      rfl

end Disk

def books (s : World) : Books where
  ledger h := (s.cells h).session.tickets
  stored := storedLedger s.disk

namespace Books

def Absent (B : Books) (t : TicketId) : Prop :=
  (∀ h, statuses t (B.ledger h) = []) ∧ statuses t B.stored = []

def Dead (B : Books) (t : TicketId) : Prop :=
  (∀ h, .active ∉ statuses t (B.ledger h)) ∧ .active ∉ statuses t B.stored

/-- A ticket has one entry in one ledger; once revoked there it is active nowhere. -/
structure Sound (B : Books) (t : TicketId) : Prop where
  one : ∀ h, (statuses t (B.ledger h)).length ≤ 1
  place : ∀ h h', statuses t (B.ledger h) ≠ [] → statuses t (B.ledger h') ≠ [] → h = h'
  storedOne : (statuses t B.stored).length ≤ 1
  spent : ∀ h, .revoked ∈ statuses t (B.ledger h) → B.Dead t

/-- What a write by the holder of `mine` leaves; `unlisted` may be being minted. -/
inductive Filed (B : Books) (mine : Option Handle) (unlisted : TicketId → Prop) (t : TicketId) :
    List TicketStatus → Prop
  | gone : Filed B mine unlisted t []
  | kept : Filed B mine unlisted t (statuses t B.stored)
  | copied {h : Handle} (hmine : mine = some h) : Filed B mine unlisted t (statuses t (B.ledger h))
  | revoked {h : Handle} (hmine : mine = some h) (hlisted : statuses t (B.ledger h) ≠ []) :
    Filed B mine unlisted t [.revoked]
  | minted (hunlisted : unlisted t) : Filed B mine unlisted t [.active]

/-- What a change of the ledger at `h` can leave for a ticket. -/
inductive Amended (B : Books) (h : Handle) (t : TicketId) (minting revoking : Prop) :
    List TicketStatus → Prop
  | kept : Amended B h t minting revoking (statuses t (B.ledger h))
  | minted (hmint : minting) : Amended B h t minting revoking [.active]
  | revoked (hrevoke : revoking) : Amended B h t minting revoking [.revoked]

section Steps

variable {B : Books} {t : TicketId} {mine : Option Handle} {unlisted : TicketId → Prop}
  {k : List TicketEntry}

theorem Absent.filed (h : B.Absent t) (hk : B.Filed mine unlisted t (statuses t k))
    (hun : ¬ unlisted t) : Absent { B with stored := k } t := by
  refine ⟨h.1, ?_⟩
  generalize statuses t k = x at hk ⊢
  cases hk with
  | gone => rfl
  | kept => exact h.2
  | copied hmine => exact h.1 _
  | revoked hmine hlisted => exact absurd (h.1 _) hlisted
  | minted hunlisted => exact absurd hunlisted hun

theorem Dead.filed (h : B.Dead t) (hk : B.Filed mine unlisted t (statuses t k))
    (hun : ¬ unlisted t) : Dead { B with stored := k } t := by
  refine ⟨h.1, ?_⟩
  generalize statuses t k = x at hk ⊢
  cases hk with
  | gone => simp
  | kept => exact h.2
  | copied hmine => exact h.1 _
  | revoked hmine hlisted => simp
  | minted hunlisted => exact absurd hunlisted hun

theorem Sound.filed (h : B.Sound t) (hk : B.Filed mine unlisted t (statuses t k))
    (hun : unlisted t → ∀ h, statuses t (B.ledger h) = []) : Sound { B with stored := k } t := by
  refine ⟨h.one, h.place, ?_, fun l hl => ?_⟩
  · dsimp only
    generalize statuses t k = x at hk ⊢
    cases hk with
    | gone => simp
    | kept => exact h.storedOne
    | copied hmine => exact h.one _
    | revoked hmine hlisted => simp
    | minted hunlisted => simp
  · apply (h.spent l hl).filed hk
    intro hunlisted
    rw [hun hunlisted l] at hl
    cases hl

variable {h : Handle} {l : List TicketEntry} {minting revoking : Prop}

theorem statuses_update_of_ne {k : Handle} (hk : k ≠ h) :
    statuses t (update B.ledger h l k) = statuses t (B.ledger k) := by
  rw [update_of_ne hk]

theorem Absent.amended (ha : B.Absent t) (hl : B.Amended h t minting revoking (statuses t l))
    (hmint : ¬ minting) (hrevoke : ¬ revoking) :
    Absent { B with ledger := update B.ledger h l } t := by
  refine ⟨fun k => ?_, ha.2⟩
  by_cases hk : k = h
  · subst hk
    dsimp only
    rw [update_self]
    generalize statuses t l = x at hl ⊢
    cases hl with
    | kept => exact ha.1 k
    | minted h => exact absurd h hmint
    | revoked h => exact absurd h hrevoke
  · rw [statuses_update_of_ne hk]
    exact ha.1 k

theorem Dead.amended (hd : B.Dead t) (hl : B.Amended h t minting revoking (statuses t l))
    (hmint : ¬ minting) : Dead { B with ledger := update B.ledger h l } t := by
  refine ⟨fun k => ?_, hd.2⟩
  by_cases hk : k = h
  · subst hk
    dsimp only
    rw [update_self]
    generalize statuses t l = x at hl ⊢
    cases hl with
    | kept => exact hd.1 k
    | minted h => exact absurd h hmint
    | revoked h => simp
  · rw [statuses_update_of_ne hk]
    exact hd.1 k

theorem sound_of_sole (hself : (statuses t (B.ledger h)).length ≤ 1)
    (hother : ∀ k, k ≠ h → statuses t (B.ledger k) = [])
    (hone : (statuses t B.stored).length ≤ 1)
    (hspent : .revoked ∈ statuses t (B.ledger h) → .active ∉ statuses t B.stored) : B.Sound t := by
  have hplace : ∀ k, statuses t (B.ledger k) ≠ [] → k = h := fun k hk =>
    by_contra fun hne => hk (hother k hne)
  refine ⟨fun k => ?_, fun k k' hk hk' => (hplace k hk).trans (hplace k' hk').symm, hone,
    fun k hk => ?_⟩
  · by_cases hkh : k = h
    · rw [hkh]
      exact hself
    · rw [hother k hkh]
      simp
  · obtain rfl := hplace k (ne_nil_of_mem hk)
    refine ⟨fun k' => ?_, hspent hk⟩
    by_cases hkh : k' = k
    · rw [hkh]
      exact not_active_of_revoked hself hk
    · rw [hother k' hkh]
      simp

theorem Sound.amended (hs : B.Sound t) (hl : B.Amended h t minting revoking (statuses t l))
    (hmint : minting → ∀ k, statuses t (B.ledger k) = [])
    (hrevoke : revoking → statuses t (B.ledger h) ≠ [] ∧ .active ∉ statuses t B.stored) :
    Sound { B with ledger := update B.ledger h l } t := by
  have hself : statuses t (update B.ledger h l h) = statuses t l := by
    rw [update_self]
  generalize statuses t l = x at hl hself
  cases hl with
  | kept =>
    -- nothing is seen of the change
    have hsame : ∀ k, statuses t (update B.ledger h l k) = statuses t (B.ledger k) := by
      intro k
      by_cases hk : k = h
      · rw [hk, hself]
      · exact statuses_update_of_ne hk
    refine ⟨fun k => ?_, fun k k' => ?_, hs.storedOne, fun k hk => ?_⟩
    · rw [hsame]
      exact hs.one k
    · rw [hsame, hsame]
      exact hs.place k k'
    · rw [hsame] at hk
      exact ⟨fun k' => by rw [hsame]; exact (hs.spent k hk).1 k', (hs.spent k hk).2⟩
  | minted hm =>
    have hsole : (statuses t (update B.ledger h l h)).length ≤ 1 := by rw [hself]; simp
    refine sound_of_sole (h := h) hsole (fun k hk => ?_) hs.storedOne fun hmem => ?_
    · rw [statuses_update_of_ne hk]
      exact hmint hm k
    · dsimp only at hmem
      rw [hself] at hmem
      simp at hmem
  | revoked hr =>
    obtain ⟨hlisted, hstored⟩ := hrevoke hr
    have hsole : (statuses t (update B.ledger h l h)).length ≤ 1 := by rw [hself]; simp
    refine sound_of_sole (h := h) hsole (fun k hk => ?_) hs.storedOne fun _ => hstored
    rw [statuses_update_of_ne hk]
    exact by_contra fun hne => hk (hs.place k h hne hlisted)

end Steps

end Books

end Artel.Ledger
