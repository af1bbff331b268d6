import Artel.Registry.HostRaceInvariant

namespace Artel.HostRace

open Store Registry Artel.Fiber Function

section Outlines

variable {ed : Ed25519} {d : Daemon ed} {peer : PeerId} {id : SessionId} {floor : UInt64} {i : ℕ}
  {call : HostCall} {passes : ℕ}

def Succeeds (_ : Label) (e : Env) (_ : World × List Effect) : Prop := e.fault = none

/-- An outline of a part of the `host` call with index `i`, with its notes. -/
abbrev Outline {α : Type} (peer : PeerId) (id : SessionId) (floor : UInt64) (i : ℕ) (call : HostCall)
    (passes : ℕ) (Q : α → View → Prop) (a : Async α) (v : View) : Prop :=
  Proceeds (Inv peer id floor) Succeeds Waits i Q (a.observe (note i (.host call passes))) v

theorem outline_lookup :
    Outline peer id floor i call passes
      (fun r w => (r = none ∧ w = .idle) ∨ ∃ h, r = some h ∧ w = .found h) lookup .idle := by
  apply Proceeds.waitForObserve
  · intro s t V e hI hv
    cases hw : s.writer with
    | none => exact .inl rfl
    | some j => exact .inr ⟨rfl, rfl, .inl (by simp [hw])⟩
  · intro s t V e hI hv hready hC
    obtain ⟨ht, ha⟩ | ⟨h, first, rest, hp⟩ := hI.phase
    · refine ⟨.idle, ?_, .inl ⟨ha.sessions, rfl⟩⟩
      rwa [← hv, update_eq_self]
    · refine ⟨.found h, ⟨?_, .inr ⟨h, first, rest, ?_⟩⟩, .inr ⟨h, hp.sessions, rfl⟩⟩
      · exact owner_keep hI.writer (by rw [hv]; rfl)
      · refine hp.set rfl rfl ?_ (by rw [hv]; rfl) (.inl rfl) rfl hp.stored
        exact owner_keep hp.holder (by rw [hv]; rfl)

variable {h : Handle}

theorem outline_lookup_found :
    Outline peer id floor i call passes (fun r w => r = some h ∧ w = .found h) lookup
      (.found h) := by
  apply Proceeds.waitForObserve
  · intro s t V e hI hv
    cases hw : s.writer with
    | none => exact .inl rfl
    | some j => exact .inr ⟨rfl, rfl, .inl (by simp [hw])⟩
  · intro s t V e hI hv hready hC
    obtain ⟨h', first, rest, hp⟩ := hI.present (i := i) (.inr (.inr (.inl ⟨h, hv⟩)))
    have hknows := hp.knows i
    rw [hv] at hknows
    obtain rfl : h = h' := hknows
    refine ⟨.found h, ?_, hp.sessions, rfl⟩
    rwa [← hv, update_eq_self]

theorem outline_writeMap :
    Outline peer id floor i call passes
      (fun r w => (r = none ∧ w = .mapped) ∨ ∃ h, r = some h ∧ w = .recheck h) (writeMap i)
      .idle := by
  apply Proceeds.waitForObserve
  · intro s t V e hI hv
    cases hw : s.writer with
    | none => exact .inl rfl
    | some j => exact .inr ⟨rfl, rfl, .inl (by simp [hw])⟩
  · intro s t V e hI hv hready hC
    have hnone : s.writer = none := Option.isNone_iff_eq_none.mp hready
    obtain ⟨ht, ha⟩ | ⟨h, first, rest, hp⟩ := hI.phase
    · refine ⟨.mapped, ⟨?_, .inl ⟨ht, ?_⟩⟩, .inl ⟨ha.sessions, rfl⟩⟩
      · exact owner_update hI.writer (.inl hnone) rfl
      · exact ha.set ha.sessions (.inr (.inl rfl)) rfl (by simp [hv])
    · refine ⟨.recheck h, ⟨?_, .inr ⟨h, first, rest, ?_⟩⟩, .inr ⟨h, hp.sessions, rfl⟩⟩
      · exact owner_update hI.writer (.inl hnone) rfl
      · refine hp.set rfl rfl ?_ (by rw [hv]; rfl) (.inl rfl) rfl hp.stored
        exact owner_keep hp.holder (by rw [hv]; rfl)

theorem outline_releaseMap :
    Outline peer id floor i call passes (fun _ w => w = .found h) releaseMap (.recheck h) := by
  apply Proceeds.onceObserve
  intro s t V e hI hv hC
  obtain ⟨h', first, rest, hp⟩ := hI.present (i := i) (.inr (.inr (.inr ⟨h, hv⟩)))
  have hknows := hp.knows i
  rw [hv] at hknows
  obtain rfl : h = h' := hknows
  have hwriter : s.writer = some i := (hI.writer i).mp (by rw [hv]; rfl)
  refine ⟨.found h, ⟨?_, .inr ⟨h, first, rest, ?_⟩⟩, rfl⟩
  · exact owner_update hI.writer (.inr hwriter) rfl
  · refine hp.set rfl rfl ?_ (by rw [hv]; rfl) (.inl rfl) rfl hp.stored
    exact owner_keep hp.holder (by rw [hv]; rfl)

theorem epochFloor_eq (disk : Disk) : epochFloor disk = (.ok (disk.epochFloor.getD 0), disk) := by
  have hzero : ¬ disk.epochFloor.getD 0 < 0 := UInt64.not_lt_zero
  simp only [epochFloor, readAndRaiseEpochFloor, if_neg hzero]

theorem outline_floor :
    Outline peer id floor i call passes (fun r w => r = .ok floor ∧ w = .floored)
      (store .floor epochFloor) .mapped := by
  apply Proceeds.onceObserve
  intro s t V e hI hv hC
  have hfault : e.fault = none := hC
  obtain ⟨ht, ha, hwriter, hothers⟩ := hI.absent (i := i) (.inl hv)
  have hfresh : s.disk.epochFloor.getD 0 = floor := by
    apply ha.fresh
    intro j call hj
    by_cases hji : j = i
    · rw [hji, hv] at hj
      cases hj
    · rw [hothers j hji] at hj
      cases hj
  simp only [hfault, epochFloor_eq, hfresh]
  refine ⟨.floored, ⟨?_, .inl ⟨ht, ?_⟩⟩, trivial, rfl⟩
  · exact owner_update hI.writer (.inr hwriter) hwriter
  · exact ha.set ha.sessions (.inr (.inr rfl)) rfl (by simp [hv])

theorem outline_create (hpeer : call.peer = peer) :
    Outline peer id floor i call passes (fun r w => r = .ok () ∧ w = .filed call)
      (store .create (create (createdSession id call floor).record)) .floored := by
  apply Proceeds.onceObserve
  intro s t V e hI hv hC
  have hfault : e.fault = none := hC
  obtain ⟨ht, ha, hwriter, hothers⟩ := hI.absent (i := i) (.inr (.inl hv))
  obtain ⟨hok, hstored⟩ := stored_create id call floor s.disk
  simp only [hfault]
  refine ⟨.filed call, ⟨?_, .inl ⟨ht, ?_⟩⟩, hok, rfl⟩
  · exact owner_update hI.writer (.inr hwriter) hwriter
  · refine ⟨ha.sessions, fun j => ?_, fun hnone => ?_, fun j call' hj => ?_⟩
    · by_cases hji : j = i
      · rw [hji, update_self]
        exact .inr (.inr (.inr ⟨call, rfl⟩))
      · rw [update_of_ne hji]
        exact ha.early j
    · have hself := hnone i call
      rw [update_self] at hself
      exact absurd rfl hself
    · by_cases hji : j = i
      · rw [hji, update_self] at hj
        obtain rfl : call = call' := View.filed.inj hj
        exact ⟨hpeer, hstored⟩
      · rw [update_of_ne hji, hothers j hji] at hj
        cases hj

theorem outline_insert :
    Outline peer id floor i call passes (fun _ w => w = .done 0 call)
      (insert (createdSession id call floor)) (.filed call) := by
  apply Proceeds.onceObserve
  intro s t V e hI hv hC
  obtain ⟨rfl, ha, hwriter, hothers⟩ := hI.absent (i := i) (.inr (.inr ⟨call, hv⟩))
  obtain ⟨hpeer, hstored⟩ := ha.filed i call hv
  have hview : ∀ j, j = i ∧ update V i (.done 0 call) j = .done 0 call ∨
      j ≠ i ∧ update V i (.done 0 call) j = .idle := by
    intro j
    by_cases hji : j = i
    · exact .inl ⟨hji, by rw [hji, update_self]⟩
    · exact .inr ⟨hji, by rw [update_of_ne hji, hothers j hji]⟩
  refine ⟨.done 0 call, ⟨?_, .inr ⟨s.nextHandle, call, [], ?_⟩⟩, rfl⟩
  · exact owner_update hI.writer (.inr hwriter) rfl
  · exact
      { sessions := rfl
        effects_eq := ⟨i, rfl⟩
        resumed := by simp
        peer_eq := hpeer
        session := by
          rw [World.insert_cells_self]
          rfl
        holder := fun j => by
          rw [World.insert_cells_self]
          rcases hview j with ⟨-, hj⟩ | ⟨-, hj⟩ <;> simp [hj, View.locking]
        position := fun k x hx => by
          rcases k with _ | k
          · obtain rfl : ⟨i, call, true⟩ = x := by simpa [note] using hx
            rw [update_self]
            rfl
          · simp [note] at hx
        knows := fun j => by
          rcases hview j with ⟨rfl, hj⟩ | ⟨-, hj⟩ <;> rw [hj]
          · exact ⟨true, rfl⟩
          · trivial
        stored := fun _ => hstored }

theorem outline_hostSession (h : Handle) (v : View) :
    Outline peer id floor i call passes (fun _ w => w = v) (hostSession h) v := by
  have hquiet : ∀ {α : Type} (l : Label) (f : Env → World → α × World),
      (∀ t e s, note i (.host call passes) l e s (f e s).2 t = t) →
      (∀ e s, (f e s).2.sessions = s.sessions ∧ (f e s).2.writer = s.writer ∧
        (f e s).2.cells = s.cells ∧ (f e s).2.disk = s.disk) →
      Outline peer id floor i call passes (fun _ w => w = v) (once l f) v := by
    intro α l f hnote hf
    apply Proceeds.onceObserve
    intro s t V e hI hv hC
    obtain ⟨hsessions, hwriter, hcells, hdisk⟩ := hf e s
    refine ⟨v, ?_, rfl⟩
    rw [hnote, ← hv, update_eq_self]
    exact hI.elsewhere hsessions hwriter hcells hdisk
  refine (hquiet _ _ (fun _ _ _ => rfl) fun e s => ?_).bindObserve ?_
  · split <;> simp
  · rintro r w rfl
    cases r with
    | none => exact rfl
    | some generation =>
      refine (hquiet _ _ (fun _ _ _ => rfl) fun e s => ⟨rfl, rfl, rfl, rfl⟩).bindObserve ?_
      rintro r w rfl
      cases r with
      | some err =>
        refine (hquiet _ _ (fun _ _ _ => rfl) fun e s => ?_).bindObserve fun _ _ hw => hw
        split <;> simp
      | none =>
        refine (hquiet _ _ (fun _ _ _ => rfl) fun e s => ⟨rfl, rfl, rfl, rfl⟩).bindObserve ?_
        rintro _ w rfl
        refine (hquiet _ _ (fun _ _ _ => rfl) fun e s => ?_).bindObserve fun _ _ hw => hw
        dsimp only [abort]
        split <;> simp

theorem outline_lock :
    Outline peer id floor i call passes
      (fun x w => x.host = peer ∧ x.kind = .Local ∧ w = .held h x) (lock i h) (.found h) := by
  apply Proceeds.waitForObserve
  · intro s t V e hI hv
    obtain ⟨h', first, rest, hp⟩ := hI.present (i := i) (.inr (.inr (.inl ⟨h, hv⟩)))
    have hknows := hp.knows i
    rw [hv] at hknows
    obtain rfl : h = h' := hknows
    cases hholder : (s.cells h).holder with
    | none => exact .inl rfl
    | some j => exact .inr ⟨rfl, rfl, .inr ⟨h, hp.sessions, by simp [hholder]⟩⟩
  · intro s t V e hI hv hready hC
    obtain ⟨h', first, rest, hp⟩ := hI.present (i := i) (.inr (.inr (.inl ⟨h, hv⟩)))
    have hknows := hp.knows i
    rw [hv] at hknows
    obtain rfl : h = h' := hknows
    have hfree : (s.cells h).holder = none := Option.isNone_iff_eq_none.mp hready
    obtain ⟨hhost, hkind⟩ := outcome_host id floor first rest
    rw [hp.session]
    refine ⟨.held h (outcome id floor first rest), ⟨?_, .inr ⟨h, first, rest, ?_⟩⟩,
      hhost.trans hp.peer_eq, hkind, rfl⟩
    · exact owner_keep hI.writer (by rw [hv]; rfl)
    · refine hp.set rfl ?_ ?_ (by rw [hv]; rfl) (.inl rfl) ⟨rfl, rfl, hp.stored hfree⟩ ?_
      · rw [World.modify_cells_self]
      · rw [World.modify_cells_self]
        exact owner_update hp.holder (.inl hfree) rfl
      · rw [World.modify_cells_self]
        exact fun hnone => by cases hnone

theorem outline_write {op : Disk → IoResult Unit} {v v' : View}
    (hv : v.locking = true ∧ v.mapping = false ∧ v.effect = none)
    (hv' : v'.locking = true ∧ v'.mapping = false ∧ v'.effect = none)
    (hop : ∀ k session disk t, Knows k session disk t i v →
      (op disk).1 = .ok () ∧ Knows k session (op disk).2 t i v') :
    Outline peer id floor i call passes (fun r w => r = .ok () ∧ w = v') (store (.write h) op)
      v := by
  apply Proceeds.onceObserve
  intro s t V e hI hi hC
  have hfault : e.fault = none := hC
  have hlocking : (V i).locking = true := by rw [hi]; exact hv.1
  obtain ⟨k, first, rest, hp⟩ := hI.present (.inl hlocking)
  have hknows := hp.knows i
  rw [hi] at hknows
  obtain ⟨hok, hknows'⟩ := hop _ _ _ _ hknows
  have hholder := (hp.holder i).mp hlocking
  simp only [hfault]
  refine ⟨v', ⟨?_, .inr ⟨k, first, rest, ?_⟩⟩, hok, rfl⟩
  · exact owner_keep hI.writer (by rw [hi, hv.2.1, hv'.2.1])
  · refine hp.set rfl rfl ?_ (by rw [hi, hv.2.2, hv'.2.2]) (.inr hlocking) hknows' ?_
    · exact owner_keep hp.holder (by rw [hlocking, hv'.1])
    · intro hnone
      rw [hholder] at hnone
      cases hnone

theorem outline_update {x : Session} :
    Outline peer id floor i call passes
      (fun _ w => ∃ k, w = .settled h k call ∧ nextEpoch x.hostEpoch = epochAt floor k)
      (update h fun s => resumedSession s call) (.raised h x call) := by
  apply Proceeds.onceObserve
  intro s t V e hI hi hC
  have hlocking : (V i).locking = true := by rw [hi]; rfl
  obtain ⟨h', first, rest, hp⟩ := hI.present (.inl hlocking)
  have hknows := hp.knows i
  rw [hi] at hknows
  obtain ⟨rfl, rfl, hstored⟩ := hknows
  have hholder := (hp.holder i).mp hlocking
  have hothers : ∀ j, j ≠ i → (V j).locking = false := by
    intro j hj
    rw [Bool.eq_false_iff, ne_eq, hp.holder j, hholder]
    exact fun heq => hj (Option.some.inj heq).symm
  obtain ⟨j, ht⟩ := hp.effects_eq
  have hlen : t.length = rest.length + 1 := by rw [ht, List.length_cons]
  refine ⟨.settled h t.length call, ⟨?_, .inr ⟨h, first, rest ++ [⟨i, call, false⟩], ?_⟩⟩,
    t.length, rfl, ?_⟩
  · exact owner_keep hI.writer (by rw [hi]; rfl)
  · exact
      { sessions := hp.sessions
        effects_eq := ⟨j, by simp [note, ht]⟩
        resumed := fun y hy => by
          rcases List.mem_append.mp hy with hy | hy
          · exact hp.resumed y hy
          · rw [List.mem_singleton.mp hy]
        peer_eq := hp.peer_eq
        session := by
          rw [World.modify_cells_self, outcome_append, ← hp.session]
        holder := by
          rw [World.modify_cells_self]
          exact owner_keep hp.holder (by rw [hi]; rfl)
        position := fun k y hy => by
          simp only [note] at hy
          rcases Nat.lt_or_ge k t.length with hk | hk
          · rw [List.getElem?_append_left hk] at hy
            have hold := hp.position k y hy
            have hne : y.call ≠ i := by
              intro heq
              rw [heq, hi] at hold
              cases hold
            rw [update_of_ne hne]
            exact hold
          · obtain ⟨hk', rfl⟩ : k = t.length ∧ ⟨i, call, false⟩ = y := by
              rw [List.getElem?_append_right hk] at hy
              rcases hn : k - t.length with _ | n
              · exact ⟨by omega, by simpa [hn] using hy⟩
              · simp [hn] at hy
            rw [update_self, hk']
            rfl
        knows := fun j => by
          by_cases hj : j = i
          · rw [hj, update_self, outcome_append]
            exact ⟨rfl, ⟨false, by simp [note]⟩, hstored⟩
          · rw [update_of_ne hj]
            exact (hp.knows j).of_not_locking (hothers j hj) _
        stored := fun hnone => by
          rw [World.modify_cells_self] at hnone
          rw [hholder] at hnone
          cases hnone }
  · rw [outcome_hostEpoch, hlen, epochAt, epochAt, iterate_succ_apply']

theorem outline_unlock {k : ℕ} :
    Outline peer id floor i call passes (fun _ w => w = .done k call) (unlock h)
      (.settled h k call) := by
  apply Proceeds.onceObserve
  intro s t V e hI hi hC
  have hlocking : (V i).locking = true := by rw [hi]; rfl
  obtain ⟨h', first, rest, hp⟩ := hI.present (.inl hlocking)
  have hknows := hp.knows i
  rw [hi] at hknows
  obtain ⟨rfl, heffect, hstored⟩ := hknows
  refine ⟨.done k call, ⟨?_, .inr ⟨h, first, rest, ?_⟩⟩, rfl⟩
  · exact owner_keep hI.writer (by rw [hi]; rfl)
  · refine hp.set rfl ?_ ?_ (by rw [hi]; rfl) (.inl rfl) heffect fun _ => hstored
    · rw [World.modify_cells_self]
    · rw [World.modify_cells_self]
      exact owner_update hp.holder (.inr ((hp.holder i).mp hlocking)) rfl

variable (d) in
/-- What a `host` call returns: a ticket at the epoch of its place among the effects. -/
def Minted (id : SessionId) (floor : UInt64) (call : HostCall) (r : Outcome) (w : View) : Prop :=
  ∃ k, w = .done k call ∧ r = .ok (.ticket (mintTicket d id call (epochAt floor k)))

section

variable (hpeer : call.peer = peer)
include hpeer

theorem outline_hostResume :
    Outline peer id floor i call passes (Minted d id floor call) (hostResume d id i call h)
      (.found h) := by
  apply outline_lock.bindObserve
  rintro x w ⟨hhost, hkind, rfl⟩
  have hours : ¬(x.host ≠ call.peer ∨ x.kind ≠ .Local) := by simp [hhost, hkind, hpeer]
  rw [if_neg hours]
  have hput : Outline peer id floor i call passes
      (fun r w => r = .ok () ∧ w = .listed h x call)
      (store (.write h) (putTickets (x.tickets ++ [ledgerEntry call]))) (.held h x) := by
    refine outline_write ⟨rfl, rfl, rfl⟩ ⟨rfl, rfl, rfl⟩ ?_
    rintro k session disk t ⟨rfl, rfl, hstored⟩
    obtain ⟨hok, hstored'⟩ := hstored.putTickets (x.tickets ++ [ledgerEntry call])
    exact ⟨hok, rfl, rfl, hstored'⟩
  have hbump : Outline peer id floor i call passes
      (fun r w => r = .ok () ∧ w = .raised h x call)
      (store (.write h) (bumpHostEpoch (nextEpoch x.hostEpoch))) (.listed h x call) := by
    refine outline_write ⟨rfl, rfl, rfl⟩ ⟨rfl, rfl, rfl⟩ ?_
    rintro k session disk t ⟨rfl, rfl, hstored⟩
    obtain ⟨hok, hstored'⟩ := hstored.bumpHostEpoch (nextEpoch x.hostEpoch)
    exact ⟨hok, rfl, rfl, hstored'⟩
  apply hput.bindObserve
  rintro r w ⟨rfl, rfl⟩
  apply hbump.bindObserve
  rintro r w ⟨rfl, rfl⟩
  apply outline_update.bindObserve
  rintro _ w ⟨k, rfl, hepoch⟩
  apply outline_unlock.bindObserve
  rintro _ w rfl
  apply (outline_hostSession h _).bindObserve
  rintro _ w rfl
  exact ⟨k, rfl, by rw [hepoch]⟩

theorem outline_hostCreate :
    Outline peer id floor i call passes (Minted d id floor call) (hostCreate d id call)
      .mapped := by
  apply outline_floor.bindObserve
  rintro r w ⟨rfl, rfl⟩
  apply (outline_create hpeer).bindObserve
  rintro r w ⟨rfl, rfl⟩
  apply outline_insert.bindObserve
  rintro h w rfl
  apply (outline_hostSession h _).bindObserve
  rintro _ w rfl
  exact ⟨0, rfl, rfl⟩

theorem outline_host_found {n : ℕ} (hn : 1 ≤ n) :
    Outline peer id floor i call passes (Minted d id floor call) (host d id i call n)
      (.found h) := by
  obtain ⟨n, rfl⟩ : ∃ k, n = k + 1 := ⟨n - 1, by omega⟩
  unfold host hostPass
  simp only [bind_eq]
  apply outline_lookup_found.bindObserve
  rintro r w ⟨rfl, rfl⟩
  exact outline_hostResume hpeer

theorem outline_host {n : ℕ} (hn : 2 ≤ n) :
    Outline peer id floor i call passes (Minted d id floor call) (host d id i call n)
      .idle := by
  obtain ⟨n, rfl⟩ : ∃ k, n = k + 1 := ⟨n - 1, by omega⟩
  unfold host hostPass
  simp only [bind_eq]
  apply outline_lookup.bindObserve
  rintro r w (⟨rfl, rfl⟩ | ⟨h, rfl, rfl⟩)
  · apply outline_writeMap.bindObserve
    rintro r w (⟨rfl, rfl⟩ | ⟨h, rfl, rfl⟩)
    · exact outline_hostCreate hpeer
    · apply outline_releaseMap.bindObserve
      rintro _ w rfl
      exact outline_host_found hpeer (by omega)
  · exact outline_hostResume hpeer

end

end Outlines

end Artel.HostRace
