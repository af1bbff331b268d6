import Mathlib.Data.Fintype.Card
import Artel.Registry.HostRaceOutline

namespace Artel.HostRace

open Store Registry Artel.Fiber

section Runs

variable {ed : Ed25519} (d : Daemon ed) (id : SessionId)

def effects (start : World) (ms : List (Move Call Env)) : List Effect :=
  (Pool.run (Pool.observed note (Call.body d id)) ⟨(start, []), []⟩ ms).world.2

/-- The calls are `host` calls of one peer, and no store operation fails. -/
def Hosts (peer : PeerId) (passes : ℕ) : Move Call Env → Prop
  | .call (.host call n) => call.peer = peer ∧ n = passes
  | .call _ => False
  | .step _ e => e.fault = none

def Active (ticket : TicketId) (ledger : List TicketEntry) : Prop :=
  ∃ entry ∈ ledger, entry.ticketId = ticket ∧ entry.status = .active

def Returned (p : Pool Call World Env Label Outcome) (i : ℕ) (ticket : SessionTicket) : Prop :=
  p.result i = some (.ok (.ticket ticket))

/-- One session, created by one call, with a ticket and an epoch for each. -/
structure Served (p : Pool Call World Env Label Outcome) (t : List Effect) (session : Session)
    (doc : Meta) (ledger : List TicketEntry) : Prop where
  creator : ∃ i < p.calls.length, (t.filter Effect.created).map Effect.call = [i]
  tickets : ∀ i < p.calls.length, ∃ ticket, Returned p i ticket ∧ ticket.sessionId = id ∧
    ticket.hostEpoch ≤ session.hostEpoch ∧ Active ticket.ticketId session.tickets ∧
    Active ticket.ticketId ledger
  distinct : ∀ i j ticket ticket', Returned p i ticket → Returned p j ticket' → i ≠ j →
    ticket.hostEpoch ≠ ticket'.hostEpoch
  largest : ∃ i ticket, Returned p i ticket ∧ ticket.hostEpoch = session.hostEpoch
  stored : doc.hostEpoch = session.hostEpoch

variable {d id} {peer : PeerId} {passes : ℕ} {floor : UInt64}

theorem nextEpoch_toNat {e : UInt64} (h : e.toNat + 1 < 2 ^ 64) :
    (nextEpoch e).toNat = e.toNat + 1 := by
  rw [nextEpoch, if_pos h, UInt64.toNat_add]
  exact Nat.mod_eq_of_lt h

theorem epochAt_toNat {k : ℕ} (h : floor.toNat + k < 2 ^ 64) :
    (epochAt floor k).toNat = floor.toNat + k := by
  induction k with
  | zero => rfl
  | succ k ih =>
    have hk := ih (by omega)
    rw [epochAt, Function.iterate_succ_apply', ← epochAt, nextEpoch_toNat (by omega), hk]
    omega

structure Account (d : Daemon ed) (id : SessionId) (peer : PeerId) (floor : UInt64)
    (p : Pool Call World Env Label Outcome) (t : List Effect) (V : ℕ → View) : Prop where
  inv : Inv peer id floor (p.world, t) V
  idle : ∀ i, p.calls.length ≤ i → V i = .idle
  calls : ∀ i o f, p.calls[i]? = some (o, f) →
    Proceeds (Inv peer id floor) Succeeds Waits i
      (fun r w => ∃ call n, o = .host call n ∧ Minted d id floor call r w)
      (f.observe (note i o)) (V i)

variable (d id) in
theorem account (hpasses : 2 ≤ passes) {start : World} (hsessions : start.sessions = none)
    (hwriter : start.writer = none) {ms : List (Move Call Env)}
    (hms : ∀ m ∈ ms, Hosts peer passes m) :
    ∃ V, Account d id peer (start.disk.epochFloor.getD 0) (runCalls d id start ms)
      (effects d id start ms) V := by
  have hstart : Inv peer id (start.disk.epochFloor.getD 0) (start, []) fun _ => .idle := by
    refine ⟨fun i => by simp [View.mapping, hwriter], .inl ⟨rfl, ?_⟩⟩
    exact ⟨hsessions, fun _ => .inl rfl, fun _ => rfl, by simp⟩
  have hbody : ∀ i o, Hosts peer passes (.call o) →
      Proceeds (Inv peer id (start.disk.epochFloor.getD 0)) Succeeds Waits i
        (fun r w => ∃ call n, o = .host call n ∧
          Minted d id (start.disk.epochFloor.getD 0) call r w)
        (Pool.observed note (Call.body d id) i o) .idle := by
    intro i o ho
    cases o with
    | host call n =>
      obtain ⟨hpeer, rfl⟩ := ho
      exact (outline_host hpeer hpasses).mono fun r w hw => ⟨call, n, rfl, hw⟩
    | _ => exact ho.elim
  have hmeets : Along (Pool.move (Pool.observed note (Call.body d id)))
      (Pool.Meets (fun o => Hosts peer passes (.call o)) Succeeds) ⟨(start, []), []⟩ ms := by
    apply (Along.of_mem hms).imp
    intro p m hm
    cases m with
    | call o => exact hm
    | step i e =>
      simp only [Pool.Meets]
      split
      · exact fun _ => hm
      · trivial
  obtain ⟨V, hinv, hidle, hcalls⟩ :=
    Pool.moving_run hbody (Pool.accounted_nil hstart) hmeets
  have hshadow : Pool.Shadows note
      (Pool.run (Pool.observed note (Call.body d id)) ⟨(start, []), []⟩ ms)
      (runCalls d id start ms) :=
    Pool.shadows_run ms (Pool.shadows_nil start [])
  refine ⟨V, ?_, ?_, ?_⟩
  · rw [← hshadow.world]
    exact hinv
  · rw [← hshadow.length_eq]
    exact hidle
  · intro i o f hf
    apply hcalls i o
    rw [hshadow.calls i, hf]
    rfl

section Account

variable {p : Pool Call World Env Label Outcome} {t : List Effect} {V : ℕ → View}

section

variable (h : Account d id peer floor p t V)
include h

theorem Account.enabled {i : ℕ} {o : Call} {f : Async Outcome}
    (hi : p.calls[i]? = some (o, f)) (hf : f.returned = none)
    (hwaits : ¬ Waits (V i) (p.world, t)) (e : Env) : p.enabled i e = true := by
  have hcall := h.calls i o f hi
  cases f with
  | ret r => cases hf
  | act l ready next rest =>
    simp only [Pool.enabled, hi]
    exact (hcall (p.world, t) V e h.inv rfl).1.resolve_right hwaits

theorem Account.enabled_of_lock {i : ℕ}
    (hlock : (V i).mapping = true ∨ (V i).locking = true) (e : Env) : p.enabled i e = true := by
  cases hi : p.calls[i]? with
  | none =>
    rw [h.idle i (List.getElem?_eq_none_iff.mp hi)] at hlock
    simp [View.mapping, View.locking] at hlock
  | some c =>
    obtain ⟨o, f⟩ := c
    refine h.enabled hi ?_ ?_ e
    · cases f with
      | act l ready next rest => rfl
      | ret r =>
        obtain ⟨call, n, -, k, hk, -⟩ := h.calls i o _ hi
        simp [hk, View.mapping, View.locking] at hlock
    · rintro ⟨hmapping, hlocking, -⟩
      simp [hmapping, hlocking] at hlock

theorem Account.progress :
    p.Quiescent ∨ ∃ i, ∀ e, p.enabled i e = true := by
  by_cases hq : p.Quiescent
  · exact .inl hq
  right
  cases hwriter : p.world.writer with
  | some j => exact ⟨j, h.enabled_of_lock (.inl ((h.inv.writer j).mpr hwriter))⟩
  | none =>
    by_cases hfree : ∃ k, p.world.sessions = some k ∧ (p.world.cells k).holder ≠ none
    · obtain ⟨k, hk, hheld⟩ := hfree
      obtain ⟨j, hj⟩ := Option.ne_none_iff_exists'.mp hheld
      obtain ⟨-, ha⟩ | ⟨k', first, rest, hp⟩ := h.inv.phase
      · rw [ha.sessions] at hk
        cases hk
      · obtain rfl : k' = k := Option.some.inj (hp.sessions.symm.trans hk)
        exact ⟨j, h.enabled_of_lock (.inr ((hp.holder j).mpr hj))⟩
    · -- no lock is held, so whoever is in flight can go on
      obtain ⟨c, hc, hnone⟩ : ∃ c ∈ p.calls, c.2.returned = none := by
        simpa [Pool.Quiescent] using hq
      obtain ⟨i, hi⟩ := List.getElem?_of_mem hc
      refine ⟨i, h.enabled hi hnone ?_⟩
      rintro ⟨-, -, hw | hw⟩
      · exact hw hwriter
      · exact hfree hw

theorem Account.returned {i : ℕ} {ticket : SessionTicket}
    (hi : Returned p i ticket) :
    ∃ k call b, t[k]? = some ⟨i, call, b⟩ ∧ ticket = mintTicket d id call (epochAt floor k) := by
  obtain ⟨o, ho⟩ := Pool.result_eq_some hi
  obtain ⟨call, n, -, k, hk, hr⟩ := h.calls i o _ ho
  obtain ⟨h', first, rest, hp⟩ := h.inv.present (i := i) (.inr (.inl (by simp [hk, View.effect])))
  have hknows := hp.knows i
  rw [hk] at hknows
  obtain ⟨b, hb⟩ := hknows
  refine ⟨k, call, b, hb, ?_⟩
  simpa using hr

theorem Account.call_lt {j : ℕ} {x : Effect}
    (hx : t[j]? = some x) : x.call < p.calls.length := by
  obtain ⟨ht, -⟩ | ⟨h', first, rest, hp⟩ := h.inv.phase
  · have hnil : t = [] := ht
    simp [hnil] at hx
  by_contra hge
  have hpos := hp.position j x hx
  rw [h.idle _ (Nat.le_of_not_lt hge)] at hpos
  cases hpos

theorem Account.length_le : t.length ≤ p.calls.length := by
  obtain ⟨ht, -⟩ | ⟨h', first, rest, hp⟩ := h.inv.phase
  · have hnil : t = [] := ht
    simp [hnil]
  have hget : ∀ k : Fin t.length, t[(k : ℕ)]? = some (t.get k) := by simp
  have hinj : Function.Injective fun k : Fin t.length =>
      (⟨(t.get k).call, h.call_lt (hget k)⟩ : Fin p.calls.length) := by
    intro k k' heq
    have hk := hp.position k (t.get k) (hget k)
    have hk' := hp.position k' (t.get k') (hget k')
    rw [Fin.mk.inj heq, hk'] at hk
    exact (Fin.ext (Prod.mk.inj (Option.some.inj hk)).1).symm
  simpa using Fintype.card_le_of_injective _ hinj

theorem Account.through (hq : p.Quiescent) {i : ℕ}
    (hi : i < p.calls.length) :
    ∃ k call, V i = .done k call ∧ Returned p i (mintTicket d id call (epochAt floor k)) := by
  have hget : p.calls[i]? = some p.calls[i] := List.getElem?_eq_getElem hi
  obtain ⟨r, hr⟩ := Option.isSome_iff_exists.mp (hq _ (List.mem_of_getElem? hget))
  have hret : p.calls[i]? = some (p.calls[i].1, .ret r) := by
    rw [hget, ← Fiber.returned_eq_some hr]
  obtain ⟨call, n, -, k, hk, rfl⟩ := h.calls i _ _ hret
  refine ⟨k, call, hk, ?_⟩
  rw [Returned, Pool.result, hret]
  rfl

theorem Account.no_holder (hq : p.Quiescent) (i : ℕ) :
    (V i).locking = false := by
  by_cases hi : i < p.calls.length
  · obtain ⟨k, call, hk, -⟩ := h.through hq hi
    rw [hk]
    rfl
  · rw [h.idle i (Nat.le_of_not_lt hi)]
    rfl

theorem Account.served (hq : p.Quiescent) (hne : p.calls ≠ [])
    (hfloor : floor.toNat + p.calls.length < 2 ^ 64) :
    ∃ k dir doc, p.world.sessions = some k ∧ p.world.disk.dir = some dir ∧
      dir.metaJson = some doc ∧
      Served id p t (p.world.cells k).session doc (loadTickets dir.ticketsJson).1 := by
  have hbound := h.length_le
  obtain ⟨k, first, rest, hp⟩ : ∃ k first rest, Present peer id floor p.world t V k first rest := by
    obtain ⟨k, call, hk, -⟩ := h.through hq (List.length_pos_iff.mpr hne)
    exact h.inv.present (.inr (.inl (by rw [hk]; simp [View.effect])))
  obtain ⟨creator, ht⟩ := hp.effects_eq
  have hsession := hp.session
  have htickets : (outcome id floor first rest).tickets = t.map fun x => ledgerEntry x.host := by
    rw [outcome_tickets, ht]
    rfl
  have hlen : rest.length + 1 = t.length := by rw [ht, List.length_cons]
  have hepoch : ∀ j, j < t.length → (epochAt floor j).toNat = floor.toNat + j :=
    fun j hj => epochAt_toNat (by omega)
  have hfree : (p.world.cells k).holder = none := by
    by_contra hheld
    obtain ⟨j, hj⟩ := Option.ne_none_iff_exists'.mp hheld
    have hlocking := (hp.holder j).mpr hj
    rw [h.no_holder hq j] at hlocking
    cases hlocking
  obtain ⟨dir, doc, hdir, hdoc, hstored, hledger⟩ := hp.stored hfree
  refine ⟨k, dir, doc, hp.sessions, hdir, hdoc, ?_⟩
  have hload : (loadTickets dir.ticketsJson).1 = (outcome id floor first rest).tickets := by
    rw [hledger]
    rfl
  have hactive : ∀ {j : ℕ} {x : Effect}, t[j]? = some x →
      Active x.host.mint.ticketId (outcome id floor first rest).tickets := by
    intro j x hx
    rw [htickets]
    exact ⟨ledgerEntry x.host, List.mem_map_of_mem (List.mem_of_getElem? hx), rfl, rfl⟩
  rw [hsession, hload]
  constructor
  · have hfilter : rest.filter Effect.created = [] := by
      rw [List.filter_eq_nil_iff]
      intro x hx
      simp [hp.resumed x hx]
    have hfirst : t[0]? = some ⟨creator, first, true⟩ := by rw [ht]; rfl
    exact ⟨creator, h.call_lt hfirst, by simp [ht, hfilter]⟩
  · intro i hi
    obtain ⟨j, call, -, hreturned⟩ := h.through hq hi
    obtain ⟨j, call, b, hj, heq⟩ := h.returned hreturned
    have hjlt : j < t.length := (List.getElem?_eq_some_iff.mp hj).1
    refine ⟨_, hreturned, rfl, ?_, ?_, ?_⟩ <;> rw [heq]
    · rw [outcome_hostEpoch, UInt64.le_iff_toNat_le, mintTicket, hepoch j hjlt,
        hepoch rest.length (by omega)]
      omega
    · exact hactive hj
    · exact hactive hj
  · intro i j ticket ticket' hi hj hne heq
    obtain ⟨m, call, b, hm, rfl⟩ := h.returned hi
    obtain ⟨n, call', b', hn, rfl⟩ := h.returned hj
    have hmlt : m < t.length := (List.getElem?_eq_some_iff.mp hm).1
    have hnlt : n < t.length := (List.getElem?_eq_some_iff.mp hn).1
    have hnat := congrArg UInt64.toNat heq
    simp only [mintTicket, hepoch m hmlt, hepoch n hnlt] at hnat
    obtain rfl : m = n := by omega
    rw [hm] at hn
    exact hne (Effect.mk.inj (Option.some.inj hn)).1
  · obtain ⟨x, hx⟩ : ∃ x, t[rest.length]? = some x :=
      ⟨_, List.getElem?_eq_getElem (by omega)⟩
    obtain ⟨j, call, hj, hreturned⟩ := h.through hq (h.call_lt hx)
    have hpos := hp.position _ x hx
    rw [hj] at hpos
    obtain ⟨rfl, -⟩ := Prod.mk.inj (Option.some.inj hpos)
    exact ⟨x.call, _, hreturned, by rw [outcome_hostEpoch]; rfl⟩
  · exact hstored

end

end Account

section Bound

variable {me : ℕ} {call : HostCall}

theorem within_hostSession (h : Handle) : (hostSession h).Within 4 := by
  refine within_act fun r => ?_
  cases r with
  | none => trivial
  | some generation =>
    refine within_act fun r => ?_
    cases r with
    | some err => exact within_act fun _ => trivial
    | none => exact within_act fun _ => within_act fun _ => trivial

theorem within_hostResume (h : Handle) : (hostResume d id me call h).Within 9 := by
  have hunlock : ∀ r : Outcome, ((unlock h).bind fun _ => .ret r).Within 1 := fun r =>
    within_act fun _ => trivial
  refine within_act fun s => ?_
  split
  · exact (hunlock _).mono (by omega)
  refine within_act fun r => ?_
  cases r with
  | error e => exact (hunlock _).mono (by omega)
  | ok u =>
    refine within_act fun r => ?_
    cases r with
    | error e => exact (hunlock _).mono (by omega)
    | ok u =>
      refine within_act fun _ => within_act fun _ => ?_
      exact within_bind (n := 4) (m := 0) (within_hostSession h) fun _ => trivial

theorem within_hostCreate : (hostCreate d id call).Within 7 := by
  have hrelease : ∀ r : Outcome, (releaseMap.bind fun _ => .ret r).Within 1 := fun r =>
    within_act fun _ => trivial
  refine within_act fun r => ?_
  cases r with
  | error e => exact (hrelease _).mono (by omega)
  | ok floor =>
    refine within_act fun r => ?_
    cases r with
    | error e => exact (hrelease _).mono (by omega)
    | ok u =>
      refine within_act fun h => ?_
      exact within_bind (n := 4) (m := 0) (within_hostSession h) fun _ => trivial

theorem within_host (passes : ℕ) : (host d id me call passes).Within (3 * passes + 10) := by
  induction passes with
  | zero => exact ⟨by omega, fun _ _ => trivial⟩
  | succ passes ih =>
    have hpass : (host d id me call (passes + 1)).Within (3 * passes + 13) := by
      refine within_act fun r => ?_
      cases r with
      | some h => exact (within_hostResume h).mono (by omega)
      | none =>
        refine within_act fun r => ?_
        cases r with
        | none => exact within_hostCreate.mono (by omega)
        | some h => exact within_act fun _ => ih
    exact hpass.mono (by omega)

end Bound

variable (d id) in
/-- Concurrent `host` calls end, and share one session with a ticket for each. -/
theorem hosts_share_session (hpasses : 2 ≤ passes) (start : World) (hsessions : start.sessions = none)
    (hwriter : start.writer = none) (ms : List (Move Call Env))
    (hms : ∀ m ∈ ms, Hosts peer passes m)
    (hfloor : (start.disk.epochFloor.getD 0).toNat + (runCalls d id start ms).calls.length <
      2 ^ 64) :
    Pool.taken (Call.body d id) ⟨start, []⟩ ms ≤
        (3 * passes + 10) * (runCalls d id start ms).calls.length ∧
      ((runCalls d id start ms).Quiescent ∨
        ∃ i, ∀ e, (runCalls d id start ms).enabled i e = true) ∧
      ((runCalls d id start ms).Quiescent → (runCalls d id start ms).calls ≠ [] →
        ∃ k dir doc, (runCalls d id start ms).world.sessions = some k ∧
          (runCalls d id start ms).world.disk.dir = some dir ∧ dir.metaJson = some doc ∧
          Served id (runCalls d id start ms) (effects d id start ms)
            ((runCalls d id start ms).world.cells k).session doc
            (loadTickets dir.ticketsJson).1) := by
  obtain ⟨V, h⟩ := account d id hpasses hsessions hwriter hms
  refine ⟨?_, h.progress, fun hq hne => h.served hq hne hfloor⟩
  have hbody : ∀ i o, Hosts peer passes (.call o) →
      (Call.body d id i o).Within (3 * passes + 10) := by
    intro i o ho
    cases o with
    | host call n =>
      obtain ⟨-, rfl⟩ := ho
      exact within_host n
    | _ => exact ho.elim
  exact Pool.taken_le hbody (fun o ho => hms _ ho) start

end Runs

section Sample

open Sample

def hostCall (b : UInt8) : HostCall :=
  { call with mint := ⟨⟨⟨List.replicate 16 b, by simp⟩⟩, 0⟩ }

/-- Three calls that all look for the session before any of them creates it. -/
def threeHosts : List (Move Call Env) :=
  [.call (.host (hostCall 1) 2), .call (.host (hostCall 2) 2), .call (.host (hostCall 3) 2)] ++
    (List.replicate 26 [.step 0 calm, .step 1 calm, .step 2 calm]).flatten

instance (peer : PeerId) (passes : ℕ) : DecidablePred (Hosts peer passes)
  | .call o => by
    unfold Hosts
    cases o <;> infer_instance
  | .step _ _ => inferInstanceAs (Decidable (_ = _))

theorem hosts_share_session_three :
    (runCalls daemon session (World.empty blank noDisk) threeHosts).Quiescent ∧
      ∃ k dir doc,
        (runCalls daemon session (World.empty blank noDisk) threeHosts).world.sessions = some k ∧
        (runCalls daemon session (World.empty blank noDisk) threeHosts).world.disk.dir = some dir ∧
        dir.metaJson = some doc ∧
        Served session (runCalls daemon session (World.empty blank noDisk) threeHosts)
          (effects daemon session (World.empty blank noDisk) threeHosts)
          ((runCalls daemon session (World.empty blank noDisk) threeHosts).world.cells k).session doc
          (loadTickets dir.ticketsJson).1 := by
  have hms : ∀ m ∈ threeHosts, Hosts (peer 0) 2 m := by decide
  have hquiet : (runCalls daemon session (World.empty blank noDisk) threeHosts).Quiescent := by
    decide +kernel
  refine ⟨hquiet, ?_⟩
  exact (hosts_share_session daemon session (Nat.le_refl 2) (World.empty blank noDisk) rfl rfl
    threeHosts hms (by decide +kernel)).2.2 hquiet (by decide +kernel)

end Sample

end Artel.HostRace
