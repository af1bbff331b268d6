import Artel.Lib.Run
import Artel.Workspace.PeerMap

namespace Artel.Workspace

inductive Direction
  | incoming
  | outgoing
  deriving DecidableEq

/-- A dial that is about to be made, or a connection whose handshake is over. -/
inductive Hook
  | beforeConnect (remote : EndpointId)
  | afterHandshake (server : Bool) (remote : EndpointId)
  deriving DecidableEq

inductive Verdict
  | accept
  | reject (reason : Option String)
  deriving DecidableEq

namespace Hook

/-- Whose standing decides; the dialling side of a handshake has been asked about before. -/
def guarded : Hook → Option EndpointId
  | beforeConnect remote => some remote
  | afterHandshake server remote => if server then some remote else none

def closedVerdict : Hook → Verdict
  | beforeConnect _ => .reject none
  | afterHandshake _ _ => .reject (some "workspace closed before capability replay completed")

def revokedVerdict : Hook → Verdict
  | beforeConnect _ => .reject none
  | afterHandshake _ _ => .reject (some "revoked")

def direction : Hook → Direction
  | beforeConnect _ => .outgoing
  | afterHandshake _ _ => .incoming

theorem closedVerdict_reject (hook : Hook) : ∃ reason, hook.closedVerdict = .reject reason := by
  cases hook <;> exact ⟨_, rfl⟩

theorem revokedVerdict_reject (hook : Hook) : ∃ reason, hook.revokedVerdict = .reject reason := by
  cases hook <;> exact ⟨_, rfl⟩

end Hook

/-- How far a hook has got; the two maps are read under locks of their own. -/
inductive HookPhase
  /-- `wait_ready().await` -/
  | waiting
  /-- The endpoint is looked up in `id_map`. -/
  | cleared
  /-- The peer it stands for is looked up in `revoked`. -/
  | mapped (peer : PeerId)
  | done (verdict : Verdict)
  deriving DecidableEq

structure HookCall where
  hook : Hook
  phase : HookPhase
  /-- The projection when the call began, and how many replays had been completed by then. -/
  startedIn : ProjectionState
  startedAfter : ℕ

def HookCall.advance (map : PeerMap) (c : HookCall) : HookPhase :=
  match c.phase with
  | .waiting =>
    match map.readiness with
    | .ready => .cleared
    | .closed => .done c.hook.closedVerdict
    | .initializing | .replaying => .waiting
  | .cleared =>
    match c.hook.guarded.bind map.idMap with
    | none => .done .accept
    | some peer => .mapped peer
  | .mapped peer => if map.isRevoked peer then .done c.hook.revokedVerdict else .done .accept
  | .done verdict => .done verdict

inductive ListenerPhase
  | draining
  /-- `complete_cap_replay` removes the revoked members. -/
  | completing
  | reconnecting
  | stopped
  deriving DecidableEq

structure Gate where
  map : PeerMap
  listener : ListenerPhase
  /-- Replays completed so far. -/
  completed : ℕ
  calls : List HookCall
  /-- `RevokedPeerBlocked` -/
  blocked : List (PeerId × Direction)

inductive GateEvent
  | message (m : SessionMessage)
  | replayComplete
  /-- The membership cleanup of `complete_cap_replay` is over. -/
  | cleaned (ok : Bool)
  /-- A gap, or the end of the stream. -/
  | lost
  | resubscribed
  /-- The task exits, or is aborted or dropped. -/
  | stop
  | call (hook : Hook)
  | run (k : ℕ)

namespace Gate

variable (ed : Ed25519) (session : SessionId) (isHost : Bool)

def start (s : Gate) (hook : Hook) : HookCall := ⟨hook, .waiting, s.map.readiness, s.completed⟩

def finish (s : Gate) : Gate :=
  { s with map := s.map.finishReplay, listener := .draining, completed := s.completed + 1 }

def runCall (s : Gate) (k : ℕ) (c : HookCall) : Gate :=
  let phase := c.advance s.map
  { s with
    calls := s.calls.set k { c with phase := phase }
    blocked := match c.phase with
      | .mapped peer =>
        if s.map.isRevoked peer then s.blocked ++ [(peer, c.hook.direction)] else s.blocked
      | .waiting | .cleared | .done _ => s.blocked }

def step (s : Gate) : GateEvent → Gate
  | .message m =>
    if s.listener = .draining then { s with map := s.map.observe ed session m } else s
  | .replayComplete =>
    if s.listener = .draining ∧ s.map.isReady = false then
      if s.map.isInitializing ∧ isHost then { s with listener := .completing } else s.finish
    else s
  | .cleaned ok =>
    if s.listener = .completing then
      if ok then s.finish else { s with map := s.map.close, listener := .draining }
    else s
  | .lost =>
    if s.listener = .draining then
      { s with map := s.map.beginReplay, listener := .reconnecting }
    else s
  | .resubscribed => if s.listener = .reconnecting then { s with listener := .draining } else s
  | .stop => { s with map := s.map.close, listener := .stopped }
  | .call hook => { s with calls := s.calls ++ [s.start hook] }
  | .run k =>
    match s.calls[k]? with
    | some c => s.runCall k c
    | none => s

def initial (host : PeerId) : Gate := ⟨.replaying host, .draining, 0, [], []⟩

def after (host : PeerId) (es : List GateEvent) : Gate :=
  es.foldl (step ed session isHost) (initial host)

variable {ed session isHost} {s : Gate}

theorem calls_step {event : GateEvent} {k : ℕ} {c : HookCall}
    (h : (step ed session isHost s event).calls[k]? = some c) :
    s.calls[k]? = some c ∨ (k = s.calls.length ∧ ∃ hook, c = s.start hook) ∨
      ∃ c', s.calls[k]? = some c' ∧ c = { c' with phase := c'.advance s.map } := by
  cases event with
  | message m | lost | resubscribed =>
    simp only [step] at h
    split at h <;> exact .inl h
  | replayComplete | cleaned ok =>
    simp only [step] at h
    split at h
    · split at h <;> exact .inl h
    · exact .inl h
  | stop => exact .inl h
  | call hook =>
    simp only [step, List.getElem?_append] at h
    split at h
    · exact .inl h
    · obtain ⟨hk, hc⟩ := List.getElem?_eq_some_iff.mp h
      have hzero : k - s.calls.length = 0 := by simpa using hk
      refine .inr (.inl ⟨by omega, hook, ?_⟩)
      simpa [hzero] using hc.symm
  | run j =>
    simp only [step] at h
    cases hj : s.calls[j]? with
    | none => rw [hj] at h; exact .inl h
    | some c' =>
      rw [hj] at h
      simp only [runCall, List.getElem?_set] at h
      split at h
      · rename_i hjk
        subst hjk
        split at h
        · exact .inr (.inr ⟨c', hj, (Option.some.inj h).symm⟩)
        · cases h
      · exact .inl h

/-- The projection stays closed once it is, and opens only at the end of a replay. -/
structure Turn (s t : Gate) : Prop where
  closed : s.map.readiness = .closed → t.map.readiness = .closed
  completed : s.completed ≤ t.completed
  opens : t.map.readiness = .ready → s.map.readiness = .ready ∨ s.completed < t.completed

theorem turn_of_readiness {t : Gate} (hmap : t.map.readiness = s.map.readiness)
    (hcompleted : t.completed = s.completed) : Turn s t where
  closed h := hmap.trans h
  completed := hcompleted.ge
  opens h := .inl (hmap.symm.trans h)

theorem turn_finish (s : Gate) : Turn s s.finish where
  closed h := by simp [finish, PeerMap.finishReplay, h]
  completed := Nat.le_succ _
  opens _ := .inr (Nat.lt_succ_self _)

theorem turn_close {t : Gate} (hmap : t.map = s.map.close)
    (hcompleted : t.completed = s.completed) : Turn s t where
  closed _ := by rw [hmap]; rfl
  completed := hcompleted.ge
  opens h := by rw [hmap] at h; cases h

theorem turn_beginReplay {t : Gate} (hmap : t.map = s.map.beginReplay)
    (hcompleted : t.completed = s.completed) : Turn s t := by
  have hreplay : t.map.readiness = s.map.readiness ∨
      s.map.readiness = .ready ∧ t.map.readiness = .replaying := by
    rw [hmap]
    cases h : s.map.readiness <;> simp [PeerMap.beginReplay, h]
  obtain hsame | ⟨hready, hreplaying⟩ := hreplay
  · exact turn_of_readiness hsame hcompleted
  · exact ⟨fun h => (nomatch hready.symm.trans h), hcompleted.ge,
      fun h => (nomatch hreplaying.symm.trans h)⟩

variable (ed session isHost) in
theorem turn_step (s : Gate) (event : GateEvent) : Turn s (step ed session isHost s event) := by
  have hstay : Turn s s := turn_of_readiness rfl rfl
  cases event with
  | message m =>
    simp only [step]
    split
    · exact turn_of_readiness (PeerMap.observe_readiness ..) rfl
    · exact hstay
  | replayComplete =>
    simp only [step]
    split
    · split
      · exact turn_of_readiness rfl rfl
      · exact turn_finish s
    · exact hstay
  | cleaned ok =>
    simp only [step]
    split
    · split
      · exact turn_finish s
      · exact turn_close rfl rfl
    · exact hstay
  | lost =>
    simp only [step]
    split
    · exact turn_beginReplay rfl rfl
    · exact hstay
  | resubscribed | run k =>
    simp only [step]
    split
    · exact turn_of_readiness rfl rfl
    · exact hstay
  | stop => exact turn_close rfl rfl
  | call hook => exact turn_of_readiness rfl rfl

theorem closed_foldl (h : s.map.readiness = .closed) (es : List GateEvent) :
    (es.foldl (step ed session isHost) s).map.readiness = .closed := by
  induction es generalizing s with
  | nil => exact h
  | cons event es ih => exact ih ((turn_step ed session isHost s event).closed h)

end Gate

def HookCall.Held (c : HookCall) : Prop :=
  c.phase = .waiting ∨ ∃ reason, c.phase = .done (.reject reason)

theorem HookCall.held_advance {c : HookCall} {map : PeerMap} (h : c.Held)
    (hready : map.readiness ≠ .ready) : { c with phase := c.advance map }.Held := by
  obtain hwaiting | ⟨reason, hdone⟩ := h
  · cases hmap : map.readiness with
    | ready => exact absurd hmap hready
    | closed =>
      obtain ⟨reason, hreason⟩ := c.hook.closedVerdict_reject
      exact .inr ⟨reason, by simp [advance, hwaiting, hmap, hreason]⟩
    | initializing => exact .inl (by simp [advance, hwaiting, hmap])
    | replaying => exact .inl (by simp [advance, hwaiting, hmap])
  · exact .inr ⟨reason, by simp [advance, hdone]⟩

namespace Gate

structure Sound (s : Gate) (c : HookCall) : Prop where
  started : c.startedAfter ≤ s.completed
  closed : c.startedIn = .closed → s.map.readiness = .closed ∧ c.Held
  replay : c.startedIn ≠ .ready →
    c.startedAfter < s.completed ∨ (s.map.readiness ≠ .ready ∧ c.Held)

variable {c : HookCall}

theorem Sound.turn {s t : Gate} (h : Sound s c) (hturn : Turn s t) : Sound t c where
  started := h.started.trans hturn.completed
  closed hc := ⟨hturn.closed (h.closed hc).1, (h.closed hc).2⟩
  replay hc := by
    obtain hlt | ⟨hready, hheld⟩ := h.replay hc
    · exact .inl (hlt.trans_le hturn.completed)
    · by_cases ht : t.map.readiness = .ready
      · exact .inl (h.started.trans_lt ((hturn.opens ht).resolve_left hready))
      · exact .inr ⟨ht, hheld⟩

theorem sound_start (s : Gate) (hook : Hook) : Sound s (s.start hook) where
  started := le_rfl
  closed h := ⟨h, .inl rfl⟩
  replay h := .inr ⟨h, .inl rfl⟩

theorem Sound.advance {s : Gate} (h : Sound s c) :
    Sound s { c with phase := c.advance s.map } where
  started := h.started
  closed hc := by
    have hclosed := h.closed hc
    exact ⟨hclosed.1, HookCall.held_advance hclosed.2 (by rw [hclosed.1]; nofun)⟩
  replay hc := (h.replay hc).imp_right fun hheld =>
    ⟨hheld.1, HookCall.held_advance hheld.2 hheld.1⟩

variable {ed : Ed25519} {session : SessionId} {isHost : Bool} {host : PeerId} (es : List GateEvent)

theorem after_append (event : GateEvent) :
    after ed session isHost host (es ++ [event]) =
      step ed session isHost (after ed session isHost host es) event := by
  simp [after]

theorem sound_after {k : ℕ}
    (h : (after ed session isHost host es).calls[k]? = some c) :
    Sound (after ed session isHost host es) c := by
  induction es using List.reverseRecOn generalizing c with
  | nil => simp [after, initial] at h
  | append_singleton es event ih =>
    rw [after_append] at h ⊢
    have hturn := turn_step ed session isHost (after ed session isHost host es) event
    obtain hold | ⟨-, hook, rfl⟩ | ⟨c', hold, rfl⟩ := calls_step h
    · exact (ih hold).turn hturn
    · exact (sound_start _ hook).turn hturn
    · exact (ih hold).advance.turn hturn

/-- The `k`-th call read the endpoint as no peer's or as an unrevoked one's. -/
def Unrevoked (ed : Ed25519) (session : SessionId) (isHost : Bool) (host : PeerId)
    (es : List GateEvent) (k : ℕ) (remote : EndpointId) : Prop :=
  ∃ before between rest, es = before ++ between ++ rest ∧
    k < (after ed session isHost host before).calls.length ∧
    ∀ peer, (after ed session isHost host before).map.idMap remote = some peer →
      peer ∉ (after ed session isHost host (before ++ between)).map.revoked

structure Reads (ed : Ed25519) (session : SessionId) (isHost : Bool) (host : PeerId)
    (es : List GateEvent) (k : ℕ) (c : HookCall) : Prop where
  mapped : ∀ peer, c.phase = .mapped peer → ∃ remote before between, c.hook.guarded = some remote ∧
    es = before ++ between ∧ k < (after ed session isHost host before).calls.length ∧
    (after ed session isHost host before).map.idMap remote = some peer
  accepted : c.phase = .done .accept → ∀ remote, c.hook.guarded = some remote →
    Unrevoked ed session isHost host es k remote

theorem Reads.append {es : List GateEvent} {k : ℕ}
    (h : Reads ed session isHost host es k c) (event : GateEvent) :
    Reads ed session isHost host (es ++ [event]) k c where
  mapped peer hpeer := by
    obtain ⟨remote, before, between, hguarded, rfl, hk, hmap⟩ := h.mapped peer hpeer
    exact ⟨remote, before, between ++ [event], hguarded, by simp, hk, hmap⟩
  accepted haccept remote hremote := by
    obtain ⟨before, between, rest, rfl, hk, hread⟩ := h.accepted haccept remote hremote
    exact ⟨before, between, rest ++ [event], by simp, hk, hread⟩

theorem Reads.advance {es : List GateEvent} {k : ℕ}
    (h : Reads ed session isHost host es k c)
    (hk : k < (after ed session isHost host es).calls.length) :
    Reads ed session isHost host es k
      { c with phase := c.advance (after ed session isHost host es).map } := by
  cases hphase : c.phase with
  | waiting =>
    obtain ⟨reason, hreason⟩ := c.hook.closedVerdict_reject
    constructor <;> cases hready : (after ed session isHost host es).map.readiness <;>
      simp [HookCall.advance, hphase, hready, hreason]
  | cleared =>
    cases hread : c.hook.guarded.bind (after ed session isHost host es).map.idMap with
    | none =>
      refine ⟨by simp [HookCall.advance, hphase, hread], fun _ remote hremote => ?_⟩
      have hremote' : c.hook.guarded = some remote := hremote
      have hnone : (after ed session isHost host es).map.idMap remote = none := by
        simpa [hremote'] using hread
      exact ⟨es, [], [], by simp, hk, by simp [hnone]⟩
    | some peer =>
      obtain ⟨remote, hguarded, hmap⟩ := Option.bind_eq_some_iff.mp hread
      refine ⟨fun peer' hpeer' => ?_, by simp [HookCall.advance, hphase, hread]⟩
      have heq : peer = peer' := by simpa [HookCall.advance, hphase, hread] using hpeer'
      subst heq
      exact ⟨remote, es, [], hguarded, by simp, hk, hmap⟩
  | mapped peer =>
    obtain ⟨remote, before, between, hguarded, hes, hbefore, hmap⟩ := h.mapped peer hphase
    by_cases hrevoked : peer ∈ (after ed session isHost host es).map.revoked
    · obtain ⟨reason, hreason⟩ := c.hook.revokedVerdict_reject
      constructor <;> simp [HookCall.advance, hphase, PeerMap.isRevoked, hrevoked, hreason]
    refine ⟨by simp [HookCall.advance, hphase, PeerMap.isRevoked, hrevoked],
      fun _ remote' hremote' => ?_⟩
    have heq : remote = remote' := Option.some.inj (hguarded.symm.trans hremote')
    subst heq
    refine ⟨before, between, [], by simp [hes], hbefore, fun peer' hpeer' => ?_⟩
    have hpeer : peer' = peer := Option.some.inj (hpeer'.symm.trans hmap)
    rw [← hes, hpeer]
    exact hrevoked
  | done verdict =>
    have hsame : { c with phase := c.advance (after ed session isHost host es).map } = c := by
      have hadvance : c.advance (after ed session isHost host es).map = c.phase := by
        rw [HookCall.advance, hphase]
      rw [hadvance]
    rw [hsame]
    exact h

theorem reads_after {k : ℕ}
    (h : (after ed session isHost host es).calls[k]? = some c) :
    Reads ed session isHost host es k c := by
  induction es using List.reverseRecOn generalizing c with
  | nil => simp [after, initial] at h
  | append_singleton es event ih =>
    rw [after_append] at h
    obtain hold | ⟨-, hook, rfl⟩ | ⟨c', hold, rfl⟩ := calls_step h
    · exact (ih hold).append event
    · exact ⟨nofun, nofun⟩
    · exact ((ih hold).advance (List.getElem?_eq_some_iff.mp hold).1).append event

end Gate

/-- Closed lets nothing through, calls wait for a replay, and none is of the revoked. -/
theorem hooks_respect_projection (ed : Ed25519) (session : SessionId) (isHost : Bool)
    (host : PeerId) (es : List GateEvent) :
    let s := Gate.after ed session isHost host es
    (s.map.readiness = .closed →
      ∀ later : List GateEvent,
        (later.foldl (Gate.step ed session isHost) s).map.readiness = .closed) ∧
    ∀ k c, s.calls[k]? = some c →
      (c.startedIn = .closed → ∃ reason, c.phase = .done (.reject reason) ∨
        c.phase = .waiting ∧ c.advance s.map = .done (.reject reason)) ∧
      (c.phase = .done .accept → c.startedIn = .initializing ∨ c.startedIn = .replaying →
        c.startedAfter < s.completed) ∧
      (c.phase = .done .accept → ∀ remote, c.hook.guarded = some remote →
        Gate.Unrevoked ed session isHost host es k remote) := by
  intro s
  refine ⟨fun hclosed later => Gate.closed_foldl hclosed later, fun k c hc => ⟨?_, ?_, ?_⟩⟩
  · intro hstart
    obtain ⟨hclosed, hheld⟩ := (Gate.sound_after es hc).closed hstart
    obtain hwaiting | ⟨reason, hdone⟩ := hheld
    · obtain ⟨reason, hreason⟩ := c.hook.closedVerdict_reject
      exact ⟨reason, .inr ⟨hwaiting, by simp [HookCall.advance, hwaiting, s, hclosed, hreason]⟩⟩
    · exact ⟨reason, .inl hdone⟩
  · intro haccept hstart
    have hstarted : c.startedIn ≠ .ready := by
      rcases hstart with h | h <;> rw [h] <;> nofun
    refine ((Gate.sound_after es hc).replay hstarted).resolve_right fun hheld => ?_
    obtain hwaiting | ⟨reason, hdone⟩ := hheld.2
    · cases hwaiting.symm.trans haccept
    · cases hdone.symm.trans haccept
  · exact (Gate.reads_after es hc).accepted

namespace Gate

variable {ed : Ed25519} {session : SessionId} {isHost : Bool} {remote : EndpointId} {peer : PeerId}

/-- A later message neither takes the revoked peer back nor gives its endpoint to another. -/
def Keeps (ed : Ed25519) (session : SessionId) (host : PeerId) (remote : EndpointId)
    (peer : PeerId) : GateEvent → Prop
  | .message m => (∀ cap, actionOn host peer m ≠ some (.grant peer cap)) ∧
      (m.kind = .system → m.action = NODE_ID_ACTION → announced ed session m = some remote →
        m.peer.id = peer)
  | _ => True

/-- The endpoint stands for the revoked peer from the `n`-th call on. -/
structure Blocked (host : PeerId) (remote : EndpointId) (peer : PeerId) (n : ℕ) (s : Gate) :
    Prop where
  host_eq : s.map.host = host
  registered : s.map.idMap remote = some peer
  revoked : peer ∈ s.map.revoked
  calls : ∀ k c, n ≤ k → s.calls[k]? = some c → c.hook.guarded = some remote →
    c.phase = .cleared ∨ c.phase = .mapped peer ∨ c.Held

theorem blocked_calls {host : PeerId} {n : ℕ} {s : Gate} (h : Blocked host remote peer n s)
    (event : GateEvent) {k : ℕ} {c : HookCall} (hn : n ≤ k)
    (hc : (step ed session isHost s event).calls[k]? = some c)
    (hguarded : c.hook.guarded = some remote) :
    c.phase = .cleared ∨ c.phase = .mapped peer ∨ c.Held := by
  obtain hold | ⟨-, hook, rfl⟩ | ⟨c', hold, rfl⟩ := calls_step hc
  · exact h.calls k c hn hold hguarded
  · exact .inr (.inr (.inl rfl))
  have hguarded' : c'.hook.guarded = some remote := hguarded
  obtain hcleared | hmapped | hheld := h.calls k c' hn hold hguarded
  · exact .inr (.inl (by simp [HookCall.advance, hcleared, hguarded', h.registered]))
  · obtain ⟨reason, hreason⟩ := c'.hook.revokedVerdict_reject
    exact .inr (.inr (.inr ⟨reason, by
      simp [HookCall.advance, hmapped, PeerMap.isRevoked, h.revoked, hreason]⟩))
  · by_cases hready : s.map.readiness = .ready
    · obtain hwaiting | ⟨reason, hdone⟩ := hheld
      · exact .inl (by simp [HookCall.advance, hwaiting, hready])
      · exact .inr (.inr (.inr ⟨reason, by simp [HookCall.advance, hdone]⟩))
    · exact .inr (.inr (HookCall.held_advance hheld hready))

variable (ed session isHost) in
theorem map_step (s : Gate) (event : GateEvent) :
    (∃ m, event = .message m ∧ (step ed session isHost s event).map = s.map.observe ed session m) ∨
      ((step ed session isHost s event).map.host = s.map.host ∧
        (step ed session isHost s event).map.idMap = s.map.idMap ∧
        (step ed session isHost s event).map.revoked = s.map.revoked) := by
  have hfinish : s.map.finishReplay.host = s.map.host ∧ s.map.finishReplay.idMap = s.map.idMap ∧
      s.map.finishReplay.revoked = s.map.revoked := by
    unfold PeerMap.finishReplay
    split <;> exact ⟨rfl, rfl, rfl⟩
  cases event with
  | message m =>
    simp only [step]
    split
    · exact .inl ⟨m, rfl, rfl⟩
    · exact .inr ⟨rfl, rfl, rfl⟩
  | replayComplete =>
    refine .inr ?_
    simp only [step]
    split
    · split
      · exact ⟨rfl, rfl, rfl⟩
      · exact hfinish
    · exact ⟨rfl, rfl, rfl⟩
  | cleaned ok =>
    refine .inr ?_
    simp only [step]
    split
    · split
      · exact hfinish
      · exact ⟨rfl, rfl, rfl⟩
    · exact ⟨rfl, rfl, rfl⟩
  | lost =>
    refine .inr ?_
    simp only [step]
    split
    · dsimp only [PeerMap.beginReplay]
      split <;> exact ⟨rfl, rfl, rfl⟩
    · exact ⟨rfl, rfl, rfl⟩
  | resubscribed | run k =>
    refine .inr ?_
    simp only [step]
    split <;> exact ⟨rfl, rfl, rfl⟩
  | stop => exact .inr ⟨rfl, rfl, rfl⟩
  | call hook => exact .inr ⟨rfl, rfl, rfl⟩

theorem Blocked.step {host : PeerId} {n : ℕ} {s : Gate} (h : Blocked host remote peer n s)
    {event : GateEvent} (hevent : Keeps ed session host remote peer event) :
    Blocked host remote peer n (step ed session isHost s event) := by
  have hcalls : ∀ k c, n ≤ k → (Gate.step ed session isHost s event).calls[k]? = some c →
      c.hook.guarded = some remote → c.phase = .cleared ∨ c.phase = .mapped peer ∨ c.Held :=
    fun k c hn hc => blocked_calls h event hn hc
  obtain ⟨m, rfl, hmap⟩ | ⟨hhost, hids, hrevoked⟩ := map_step ed session isHost s event
  · obtain ⟨hgrant, hannounce⟩ := hevent
    refine ⟨?_, ?_, ?_, hcalls⟩
    · rw [hmap, PeerMap.observe_host, h.host_eq]
    · rw [hmap]
      obtain ⟨e, hkind, haction, he, hobserve⟩ | hobserve := s.map.observe_cases ed session m
      · rw [hobserve]
        by_cases heq : e = remote
        · subst heq
          simp [PeerMap.register, hannounce hkind haction he]
        · simp [PeerMap.register, Function.update_of_ne (Ne.symm heq), h.registered]
      · rw [hobserve, PeerMap.applyMessage_idMap, h.registered]
    · rw [hmap, PeerMap.mem_revoked_observe, h.host_eq]
      cases hact : actionOn host peer m with
      | none => exact h.revoked
      | some action =>
        have htarget := actionOn_target hact
        cases action with
        | revoke target => exact congrArg _ htarget
        | grant target cap =>
          obtain rfl : target = peer := htarget
          exact absurd hact (hgrant cap)
  · exact ⟨hhost.trans h.host_eq, hids ▸ h.registered, hrevoked ▸ h.revoked, hcalls⟩

theorem after_host (host : PeerId) (es : List GateEvent) :
    (after ed session isHost host es).map.host = host := by
  induction es using List.reverseRecOn with
  | nil => rfl
  | append_singleton es event ih =>
    rw [after_append]
    obtain ⟨m, -, hmap⟩ | ⟨hhost, -, -⟩ :=
      map_step ed session isHost (after ed session isHost host es) event
    · rw [hmap, PeerMap.observe_host, ih]
    · exact hhost.trans ih

end Gate

/-- A revoked peer's endpoint is rejected until another peer is given it. -/
theorem revoked_endpoint_rejected (ed : Ed25519) (session : SessionId) (isHost : Bool)
    (host peer : PeerId) (remote : EndpointId) (before later : List GateEvent)
    (revoke : SessionMessage)
    (hdraining : (Gate.after ed session isHost host before).listener = .draining)
    (hregistered : (Gate.after ed session isHost host before).map.idMap remote = some peer)
    (hrevoke : actionOn host peer revoke = some (.revoke peer))
    (hlater : ∀ event ∈ later, Gate.Keeps ed session host remote peer event) :
    ∀ k c, (Gate.after ed session isHost host before).calls.length ≤ k →
      (Gate.after ed session isHost host (before ++ .message revoke :: later)).calls[k]? = some c →
      c.hook.guarded = some remote → ∀ verdict, c.phase = .done verdict →
        ∃ reason, verdict = .reject reason := by
  intro k c hk hc hguarded verdict hdone
  let s := Gate.after ed session isHost host before
  have hkind : revoke.kind = .capability := by
    by_contra hne
    simp [actionOn, hne] at hrevoke
  have hblocked : Gate.Blocked host remote peer s.calls.length
      (Gate.step ed session isHost s (.message revoke)) := by
    have hstep : Gate.step ed session isHost s (.message revoke) =
        { s with map := s.map.observe ed session revoke } := by
      simp only [Gate.step, s, hdraining, if_true]
    have hhost : s.map.host = host := Gate.after_host host before
    refine ⟨?_, ?_, ?_, fun j c' hj hc' => ?_⟩
    · rw [hstep, PeerMap.observe_host, hhost]
    · have hobserve : s.map.observe ed session revoke = s.map.applyMessage revoke := by
        simp [PeerMap.observe, PeerMap.applyMessage, hkind]
      rw [hstep, hobserve, PeerMap.applyMessage_idMap]
      exact hregistered
    · rw [hstep, PeerMap.mem_revoked_observe, hhost, hrevoke]
    · rw [hstep] at hc'
      exact absurd (List.getElem?_eq_some_iff.mp hc').1 (Nat.not_lt.mpr hj)
  let t := Gate.step ed session isHost s (.message revoke)
  have hrun : Gate.after ed session isHost host (before ++ .message revoke :: later) =
      later.foldl (Gate.step ed session isHost) t := by
    simp [Gate.after, s, t]
  rw [hrun] at hc
  have halong : Along (Gate.step ed session isHost)
      (fun _ event => Gate.Keeps ed session host remote peer event) t later := Along.of_mem hlater
  have hend := halong.invariant (fun _ _ h hevent => h.step hevent) hblocked
  obtain hcleared | hmapped | hwaiting | ⟨reason, hreject⟩ := hend.calls k c hk hc hguarded
  · cases hcleared.symm.trans hdone
  · cases hmapped.symm.trans hdone
  · cases hwaiting.symm.trans hdone
  · cases hreject.symm.trans hdone
    exact ⟨reason, rfl⟩

namespace Sample

open Artel.Sample

theorem length_bytes (b : UInt8) : (List.replicate 32 b).length = 32 := by simp

def endpoint (b : UInt8) : EndpointId := ⟨⟨List.replicate 32 b, length_bytes b⟩⟩

/-- A peer announces an endpoint, with a proof made by the endpoint's key for that peer. -/
def announcement (author : UInt8) (seq : UInt64) (workspaceId : EndpointId) : SessionMessage :=
  message author seq .system NODE_ID_ACTION
    (nodeIdAnnounceWire.put (workspaceId.bytes, Ed25519.checksum.sign ⟨workspaceId.bytes⟩
      (nodeIdAnnounceSignedBytes session (peer author) workspaceId)))

/-- The host is peer 0; peer 2 is granted `ReadWrite` and announces endpoint 7. -/
def joined : List GateEvent :=
  [.message (capability 0 1 (.grant (peer 2) .readWrite)), .message (announcement 2 2 (endpoint 7)),
    .replayComplete, .cleaned true]

def revocation : SessionMessage := capability 0 3 (.revoke (peer 2))

/-- A dial of endpoint 7 is asked about, and its hook runs to its end. -/
def dial : List GateEvent := [.call (.beforeConnect (endpoint 7)), .run 0, .run 0, .run 0]

def peerEvents : List GateEvent := .message (announcement 2 4 (endpoint 7)) :: dial

set_option maxRecDepth 4000 in
theorem revoked_endpoint_rejected_dial :
    (Gate.after .checksum session true (peer 0)
        (joined ++ .message revocation :: peerEvents)).calls.map HookCall.phase =
      [.done (.reject none)] ∧
    ∀ k c, 0 ≤ k → (Gate.after .checksum session true (peer 0)
        (joined ++ .message revocation :: peerEvents)).calls[k]? = some c →
      c.hook.guarded = some (endpoint 7) → ∀ verdict, c.phase = .done verdict →
        ∃ reason, verdict = .reject reason := by
  have hkeeps : Gate.Keeps .checksum session (peer 0) (endpoint 7) (peer 2)
      (.message (announcement 2 4 (endpoint 7))) :=
    ⟨fun cap => by simp [actionOn, announcement, message], fun _ _ _ => rfl⟩
  refine ⟨by decide +kernel, revoked_endpoint_rejected .checksum session true (peer 0) (peer 2)
    (endpoint 7) joined peerEvents revocation (by decide +kernel) (by decide +kernel)
    (by decide +kernel) fun event hevent => ?_⟩
  simp only [peerEvents, dial, List.mem_cons, List.not_mem_nil, or_false] at hevent
  obtain rfl | rfl | rfl | rfl | rfl := hevent
  · exact hkeeps
  all_goals trivial

/-- Peer 3 announces the revoked peer's endpoint, with the endpoint's proof. -/
def handedOver : List GateEvent := .message (announcement 3 4 (endpoint 7)) :: dial

theorem revoked_endpoint_accepted :
    (Gate.after .checksum session true (peer 0) joined).map.idMap (endpoint 7) = some (peer 2) ∧
      (Gate.after .checksum session true (peer 0)
        (joined ++ .message revocation :: handedOver)).map.revoked = {peer 2} ∧
      (Gate.after .checksum session true (peer 0)
        (joined ++ .message revocation :: handedOver)).calls.map HookCall.phase =
          [.done .accept] := by
  decide +kernel

end Sample

end Artel.Workspace
