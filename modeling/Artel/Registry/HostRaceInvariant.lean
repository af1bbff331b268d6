import Artel.Lib.Progress
import Artel.Registry.Registry

namespace Artel.HostRace

open Store Registry Artel.Fiber Function

/-- A `host` call's effect: it created the session, or resumed it. -/
structure Effect where
  call : ℕ
  host : HostCall
  created : Bool
  deriving DecidableEq

def note (i : ℕ) : Call → Label → Env → World → World → List Effect → List Effect
  | .host call _, .insert, _, _, _, t => t ++ [⟨i, call, true⟩]
  | .host call _, .update _, _, _, _, t => t ++ [⟨i, call, false⟩]
  | _, _, _, _, _, t => t

/-- The session that a create leaves and the resumes after it, one after the other. -/
def outcome (id : SessionId) (floor : UInt64) (first : HostCall) (rest : List Effect) : Session :=
  rest.foldl (fun s x => resumedSession s x.host) (createdSession id first floor)

def epochAt (floor : UInt64) (k : ℕ) : UInt64 := nextEpoch^[k] floor

section Outcome

variable (id : SessionId) (floor : UInt64) (first : HostCall) (rest : List Effect)

@[simp] theorem outcome_append (x : Effect) :
    outcome id floor first (rest ++ [x]) = resumedSession (outcome id floor first rest) x.host := by
  simp [outcome]

theorem outcome_host :
    (outcome id floor first rest).host = first.peer ∧
      (outcome id floor first rest).kind = .Local := by
  induction rest using List.reverseRecOn with
  | nil => exact ⟨rfl, rfl⟩
  | append_singleton rest x ih =>
    rw [outcome_append]
    exact ih

theorem outcome_hostEpoch :
    (outcome id floor first rest).hostEpoch = epochAt floor rest.length := by
  induction rest using List.reverseRecOn with
  | nil => rfl
  | append_singleton rest x ih =>
    rw [outcome_append, List.length_append, List.length_singleton, epochAt,
      iterate_succ_apply', ← epochAt, ← ih]
    rfl

theorem outcome_tickets :
    (outcome id floor first rest).tickets =
      ledgerEntry first :: rest.map fun x => ledgerEntry x.host := by
  induction rest using List.reverseRecOn with
  | nil => rfl
  | append_singleton rest x ih =>
    rw [outcome_append, List.map_append, ← List.cons_append, ← ih]
    rfl

end Outcome

def Stored (epoch : UInt64) (tickets : List TicketEntry) (disk : Disk) : Prop :=
  ∃ dir doc, disk.dir = some dir ∧ dir.metaJson = some doc ∧ doc.hostEpoch = epoch ∧
    dir.ticketsJson = some ⟨TICKETS_VERSION, tickets⟩

section Stored

variable {epoch : UInt64} {tickets : List TicketEntry} {disk : Disk}

theorem Stored.putTickets (h : Stored epoch tickets disk) (tickets' : List TicketEntry) :
    (putTickets tickets' disk).1 = .ok () ∧ Stored epoch tickets' (putTickets tickets' disk).2 := by
  obtain ⟨dir, doc, hdir, hdoc, hepoch, -⟩ := h
  simp only [Store.putTickets, hdir]
  exact ⟨trivial, _, doc, rfl, hdoc, hepoch, rfl⟩

theorem Stored.bumpHostEpoch (h : Stored epoch tickets disk) (epoch' : UInt64) :
    (bumpHostEpoch epoch' disk).1 = .ok () ∧
      Stored epoch' tickets (bumpHostEpoch epoch' disk).2 := by
  obtain ⟨dir, doc, hdir, hdoc, -, htickets⟩ := h
  simp only [Store.bumpHostEpoch, hdir, hdoc]
  exact ⟨trivial, _, _, rfl, rfl, rfl, htickets⟩

theorem stored_create (id : SessionId) (call : HostCall) (floor : UInt64) (disk : Disk) :
    (create (createdSession id call floor).record disk).1 = .ok () ∧
      Stored floor [ledgerEntry call] (create (createdSession id call floor).record disk).2 :=
  ⟨rfl, _, _, rfl, rfl, rfl, rfl⟩

end Stored

/-- Up to `filed` it holds the map's lock, from `held` on the session's. -/
inductive View
  | idle
  | mapped
  | floored
  | filed (call : HostCall)
  | recheck (h : Handle)
  | found (h : Handle)
  | held (h : Handle) (s : Session)
  | listed (h : Handle) (s : Session) (call : HostCall)
  | raised (h : Handle) (s : Session) (call : HostCall)
  | settled (h : Handle) (k : ℕ) (call : HostCall)
  | done (k : ℕ) (call : HostCall)

def View.mapping : View → Bool
  | mapped | floored | filed _ | recheck _ => true
  | _ => false

def View.locking : View → Bool
  | held _ _ | listed _ _ _ | raised _ _ _ | settled _ _ _ => true
  | _ => false

def View.effect : View → Option (ℕ × HostCall)
  | settled _ k call | done k call => some (k, call)
  | _ => none

def Knows (h : Handle) (session : Session) (disk : Disk) (t : List Effect) (i : ℕ) : View → Prop
  | .idle => True
  | .mapped | .floored | .filed _ => False
  | .recheck k | .found k => k = h
  | .held k s => k = h ∧ s = session ∧ Stored session.hostEpoch session.tickets disk
  | .listed k s call =>
    k = h ∧ s = session ∧ Stored session.hostEpoch (session.tickets ++ [ledgerEntry call]) disk
  | .raised k s call =>
    k = h ∧ s = session ∧
      Stored (nextEpoch session.hostEpoch) (session.tickets ++ [ledgerEntry call]) disk
  | .settled k n call =>
    k = h ∧ (∃ b, t[n]? = some ⟨i, call, b⟩) ∧ Stored session.hostEpoch session.tickets disk
  | .done k call => ∃ b, t[k]? = some ⟨i, call, b⟩

theorem Knows.of_not_locking {h : Handle} {session session' : Session} {disk disk' : Disk}
    {t : List Effect} {i : ℕ} {v : View} (hk : Knows h session disk t i v)
    (hv : v.locking = false) (u : List Effect) : Knows h session' disk' (t ++ u) i v := by
  cases v with
  | done k call =>
    obtain ⟨b, hb⟩ := hk
    refine ⟨b, ?_⟩
    rw [List.getElem?_append_left (List.getElem?_eq_some_iff.mp hb).1, hb]
  | held k s => cases hv
  | listed k s call => cases hv
  | raised k s call => cases hv
  | settled k n call => cases hv
  | _ => exact hk

section Invariant

variable (peer : PeerId) (id : SessionId) (floor : UInt64)

structure Absent (s : World) (V : ℕ → View) : Prop where
  sessions : s.sessions = none
  early : ∀ i, V i = .idle ∨ V i = .mapped ∨ V i = .floored ∨ ∃ call, V i = .filed call
  fresh : (∀ i call, V i ≠ .filed call) → s.disk.epochFloor.getD 0 = floor
  filed : ∀ i call, V i = .filed call →
    call.peer = peer ∧ Stored floor [ledgerEntry call] s.disk

/-- After the create, session and store are what the effects made of them. -/
structure Present (s : World) (t : List Effect) (V : ℕ → View) (h : Handle) (first : HostCall)
    (rest : List Effect) : Prop where
  sessions : s.sessions = some h
  effects_eq : ∃ i, t = ⟨i, first, true⟩ :: rest
  resumed : ∀ x ∈ rest, x.created = false
  peer_eq : first.peer = peer
  session : (s.cells h).session = outcome id floor first rest
  holder : ∀ i, (V i).locking = true ↔ (s.cells h).holder = some i
  position : ∀ k x, t[k]? = some x → (V x.call).effect = some (k, x.host)
  knows : ∀ i, Knows h (outcome id floor first rest) s.disk t i (V i)
  stored : (s.cells h).holder = none →
    Stored (outcome id floor first rest).hostEpoch (outcome id floor first rest).tickets s.disk

structure Inv (w : World × List Effect) (V : ℕ → View) : Prop where
  writer : ∀ i, (V i).mapping = true ↔ w.1.writer = some i
  phase : (w.2 = [] ∧ Absent peer floor w.1 V) ∨
    ∃ h first rest, Present peer id floor w.1 w.2 V h first rest

/-- A call waits only while it holds no lock and someone else does. -/
def Waits (v : View) (w : World × List Effect) : Prop :=
  v.mapping = false ∧ v.locking = false ∧
    (w.1.writer ≠ none ∨ ∃ h, w.1.sessions = some h ∧ (w.1.cells h).holder ≠ none)

end Invariant

section Steps

variable {peer : PeerId} {id : SessionId} {floor : UInt64} {s s' : World} {t : List Effect}
  {V : ℕ → View} {i : ℕ} {h : Handle} {first call : HostCall} {rest : List Effect} {v' : View}

theorem owner_update {P : View → Bool} {owner owner' : Option ℕ}
    (hV : ∀ j, P (V j) = true ↔ owner = some j) (hold : owner = none ∨ owner = some i)
    (hnew : owner' = if P v' then some i else none) (j : ℕ) :
    P (update V i v' j) = true ↔ owner' = some j := by
  by_cases hj : j = i
  · subst hj
    rw [update_self, hnew]
    cases P v' <;> simp
  rw [update_of_ne hj, hV, hnew]
  have hother : owner ≠ some j := by
    rcases hold with rfl | rfl
    · simp
    · exact fun heq => hj (Option.some.inj heq).symm
  refine ⟨fun heq => absurd heq hother, fun heq => ?_⟩
  split at heq
  · exact absurd (Option.some.inj heq).symm hj
  · cases heq

theorem owner_keep {P : View → Bool} {owner : Option ℕ}
    (hV : ∀ j, P (V j) = true ↔ owner = some j) (hsame : P v' = P (V i)) (j : ℕ) :
    P (update V i v' j) = true ↔ owner = some j := by
  by_cases hj : j = i
  · subst hj
    rw [update_self, hsame]
    exact hV j
  · rw [update_of_ne hj]
    exact hV j

theorem Present.set (hp : Present peer id floor s t V h first rest)
    (hsessions : s'.sessions = s.sessions) (hsession : (s'.cells h).session = (s.cells h).session)
    (hholder : ∀ j, (update V i v' j).locking = true ↔ (s'.cells h).holder = some j)
    (heffect : v'.effect = (V i).effect) (hdisk : s'.disk = s.disk ∨ (V i).locking = true)
    (hknows : Knows h (outcome id floor first rest) s'.disk t i v')
    (hstored : (s'.cells h).holder = none → Stored (outcome id floor first rest).hostEpoch
      (outcome id floor first rest).tickets s'.disk) :
    Present peer id floor s' t (update V i v') h first rest where
  sessions := hsessions.trans hp.sessions
  effects_eq := hp.effects_eq
  resumed := hp.resumed
  peer_eq := hp.peer_eq
  session := hsession.trans hp.session
  holder := hholder
  position k x hx := by
    by_cases hi : x.call = i
    · rw [hi, update_self, heffect, ← hi]
      exact hp.position k x hx
    · rw [update_of_ne hi]
      exact hp.position k x hx
  knows j := by
    by_cases hj : j = i
    · rw [hj, update_self]
      exact hknows
    rw [update_of_ne hj]
    rcases hdisk with hdisk | hlocking
    · rw [hdisk]
      exact hp.knows j
    have hfree : (V j).locking = false := by
      rw [Bool.eq_false_iff]
      intro hlock
      have hi := (hp.holder i).mp hlocking
      rw [(hp.holder j).mp hlock] at hi
      exact hj (Option.some.inj hi)
    have hk : Knows h (outcome id floor first rest) s'.disk (t ++ []) j (V j) :=
      (hp.knows j).of_not_locking hfree []
    rwa [List.append_nil] at hk
  stored := hstored

theorem Absent.set (ha : Absent peer floor s V) (hsessions : s'.sessions = none)
    (hearly : v' = .idle ∨ v' = .mapped ∨ v' = .floored) (hdisk : s'.disk = s.disk)
    (hi : ∀ call, V i ≠ .filed call) :
    Absent peer floor s' (update V i v') := by
  have hfiled : ∀ j call, update V i v' j = .filed call → V j = .filed call := by
    intro j call hj
    by_cases hji : j = i
    · rw [hji, update_self] at hj
      rcases hearly with rfl | rfl | rfl <;> cases hj
    · rwa [update_of_ne hji] at hj
  refine ⟨hsessions, fun j => ?_, fun hnone => ?_, fun j call hj => ?_⟩
  · by_cases hji : j = i
    · rw [hji, update_self]
      rcases hearly with rfl | rfl | rfl <;> simp
    · rw [update_of_ne hji]
      exact ha.early j
  · rw [hdisk]
    apply ha.fresh
    intro j call hj
    by_cases hji : j = i
    · exact hi call (hji ▸ hj)
    · apply hnone j call
      rwa [update_of_ne hji]
  · rw [hdisk]
    exact ha.filed j call (hfiled j call hj)

section

variable (hI : Inv peer id floor (s, t) V)
include hI

theorem Inv.present (hv : (V i).locking = true ∨
    (V i).effect ≠ none ∨ (∃ h, V i = .found h) ∨ ∃ h, V i = .recheck h) :
    ∃ h first rest, Present peer id floor s t V h first rest := by
  obtain ⟨-, ha⟩ | hp := hI.phase
  · rcases ha.early i with hi | hi | hi | ⟨call, hi⟩ <;>
      simp [hi, View.locking, View.effect] at hv
  · exact hp

theorem Inv.absent
    (hv : V i = .mapped ∨ V i = .floored ∨ ∃ call, V i = .filed call) :
    t = [] ∧ Absent peer floor s V ∧ s.writer = some i ∧ ∀ j, j ≠ i → V j = .idle := by
  have hwriter : s.writer = some i := by
    rw [← hI.writer i]
    rcases hv with hv | hv | ⟨call, hv⟩ <;> rw [hv] <;> rfl
  obtain ⟨ht, ha⟩ | ⟨h, first, rest, hp⟩ := hI.phase
  · refine ⟨ht, ha, hwriter, fun j hj => ?_⟩
    have hmapping : ¬ (V j).mapping = true := by
      rw [hI.writer j]
      intro hj'
      have heq : some i = some j := hwriter.symm.trans hj'
      exact hj (Option.some.inj heq).symm
    rcases ha.early j with hj' | hj' | hj' | ⟨call, hj'⟩
    · exact hj'
    all_goals simp [hj', View.mapping] at hmapping
  · have hknows := hp.knows i
    rcases hv with hv | hv | ⟨call, hv⟩ <;> rw [hv] at hknows <;> exact hknows.elim

theorem Inv.elsewhere (hsessions : s'.sessions = s.sessions)
    (hwriter : s'.writer = s.writer) (hcells : s'.cells = s.cells) (hdisk : s'.disk = s.disk) :
    Inv peer id floor (s', t) V := by
  refine ⟨fun j => ?_, ?_⟩
  · rw [hI.writer j, hwriter]
  · obtain ⟨ht, ha⟩ | ⟨h, first, rest, hp⟩ := hI.phase
    · exact .inl ⟨ht, ⟨hsessions.trans ha.sessions, ha.early, by rw [hdisk]; exact ha.fresh,
        by rw [hdisk]; exact ha.filed⟩⟩
    · refine .inr ⟨h, first, rest, ?_⟩
      exact
        { hp with
          sessions := hsessions.trans hp.sessions
          session := by rw [hcells]; exact hp.session
          holder := by rw [hcells]; exact hp.holder
          knows := by rw [hdisk]; exact hp.knows
          stored := by rw [hcells, hdisk]; exact hp.stored }

end

end Steps

end Artel.HostRace
