import Artel.Session.Host

namespace Artel

open Store Function List

def CapabilityAction.target : CapabilityAction → PeerId
  | grant peer _ => peer
  | revoke peer => peer

def CapabilityAction.leaves : CapabilityAction → Option Capability
  | grant _ cap => some cap
  | revoke _ => none

theorem CapabilityAction.decode_encode (a : CapabilityAction) : decode a.encode = some a := by
  have hpeer : ∀ peer : PeerId, Wire.peerId.fits peer := by
    intro peer
    have hlen : peer.bytes.val.length = 32 := peer.bytes.property
    simp only [Wire.peerId, Wire.fixed, Wire.map, Wire.bytes, hlen]
    decide
  cases a with
  | grant peer cap =>
    have hcap : capWire.fits cap := by
      cases cap <;> simp [capWire, Wire.map, Wire.variant]
    have hput := (Wire.peerId.pair capWire).decode_put (peer, cap) ⟨hpeer peer, hcap⟩
    simp [encode, decode, Wire.variant.get_put 0 _ (by simp [Wire.variant]), hput]
  | revoke peer =>
    have hput := Wire.peerId.decode_put peer (hpeer peer)
    simp [encode, decode, Wire.variant.get_put 1 _ (by simp [Wire.variant]), hput]

/-- The action a message takes on a peer: the host authored it, and its payload decodes. -/
def actionOn (host peer : PeerId) (m : SessionMessage) : Option CapabilityAction :=
  if m.kind = .capability ∧ m.peer.id = host then
    (CapabilityAction.decode m.payload).filter fun a => a.target = peer
  else none

def lastAction (host peer : PeerId) (log : List SessionMessage) : Option CapabilityAction :=
  (log.filterMap (actionOn host peer)).getLast?

def stepCaps (host : PeerId) (caps : Caps) (m : SessionMessage) : Caps :=
  if m.kind = .capability then applyCapabilityTo caps host m else caps

theorem commitSend_caps (s : Session) (m : SessionMessage) :
    (commitSend s m).caps = stepCaps s.host s.caps m := rfl

variable {m : SessionMessage} {a : CapabilityAction}

theorem applyCapabilityTo_some {caps : Caps} {host : PeerId}
    (hpeer : m.peer.id = host)
    (hdecode : CapabilityAction.decode m.payload = some a) :
    applyCapabilityTo caps host m =
      if a.target = host then caps else update caps a.target a.leaves := by
  unfold applyCapabilityTo
  rw [hdecode, if_neg (not_not.mpr hpeer)]
  cases a <;> rfl

theorem applyCapabilityTo_none {caps : Caps} {host : PeerId}
    (h : m.peer.id ≠ host ∨ CapabilityAction.decode m.payload = none) :
    applyCapabilityTo caps host m = caps := by
  unfold applyCapabilityTo
  split
  · rfl
  · rename_i hpeer
    rw [h.resolve_left hpeer]

theorem stepCaps_host (host : PeerId) (caps : Caps) (m : SessionMessage) :
    stepCaps host caps m host = caps host := by
  unfold stepCaps
  split
  · by_cases hpeer : m.peer.id = host
    · cases hdecode : CapabilityAction.decode m.payload with
      | none => rw [applyCapabilityTo_none (.inr hdecode)]
      | some a =>
        rw [applyCapabilityTo_some hpeer hdecode]
        split
        · rfl
        · rename_i hne
          exact update_of_ne (Ne.symm hne) ..
    · rw [applyCapabilityTo_none (.inl hpeer)]
  · rfl

variable {peer : PeerId}

theorem stepCaps_apply {host : PeerId} (hne : peer ≠ host) (caps : Caps) (m : SessionMessage) :
    stepCaps host caps m peer =
      ((actionOn host peer m).map CapabilityAction.leaves).getD (caps peer) := by
  unfold stepCaps actionOn
  by_cases hkind : m.kind = .capability
  · by_cases hpeer : m.peer.id = host
    · cases hdecode : CapabilityAction.decode m.payload with
      | none => simp [applyCapabilityTo_none (.inr hdecode), hkind, hpeer]
      | some a =>
        rw [applyCapabilityTo_some hpeer hdecode]
        by_cases htarget : a.target = peer
        · simp [Option.filter_some, hkind, hpeer, htarget, hne]
        · simp [Option.filter_some, hkind, hpeer, htarget, apply_ite (fun c : Caps => c peer),
            update_of_ne (Ne.symm htarget)]
    · simp [applyCapabilityTo_none (.inl hpeer), hpeer]
  · simp [hkind]

section Fold

variable (host : PeerId) (log : List SessionMessage)

theorem foldl_stepCaps_host (caps : Caps) :
    log.foldl (stepCaps host) caps host = caps host := by
  induction log generalizing caps with
  | nil => rfl
  | cons m log ih => rw [foldl_cons, ih, stepCaps_host]

theorem foldl_stepCaps_apply {peer : PeerId} (hne : peer ≠ host) (log : List SessionMessage) :
    log.foldl (stepCaps host) (rootCaps host) peer =
      (lastAction host peer log).bind CapabilityAction.leaves := by
  induction log using List.reverseRecOn with
  | nil => simp [rootCaps, lastAction, update_of_ne hne]
  | append_singleton log m ih =>
    rw [foldl_append, foldl_cons, foldl_nil, stepCaps_apply hne, ih]
    cases hact : actionOn host peer m with
    | none => simp [lastAction, filterMap_append, hact]
    | some a => simp [lastAction, filterMap_append, hact]

theorem projectCaps_eq_foldl :
    projectCaps host log =
      (log.insertionSort fun a b => a.seq ≤ b.seq).foldl (stepCaps host) (rootCaps host) := rfl

theorem projectCaps_host :
    projectCaps host log host = some .readWrite := by
  rw [projectCaps_eq_foldl, foldl_stepCaps_host, rootCaps, update_self]

theorem projectCaps_of_ascending {log : List SessionMessage}
    (h : Ascending SessionMessage.seq log) :
    projectCaps host log = log.foldl (stepCaps host) (rootCaps host) := by
  rw [projectCaps_eq_foldl, List.Pairwise.insertionSort_eq]
  exact h.imp fun hlt => hlt.le

theorem projectCaps_append {log : List SessionMessage} {m : SessionMessage}
    (h : Ascending SessionMessage.seq (log ++ [m])) :
    projectCaps host (log ++ [m]) = stepCaps host (projectCaps host log) m := by
  have hlog : Ascending SessionMessage.seq log := ((Ascending.append_singleton _).mp h).1
  rw [projectCaps_of_ascending host h, projectCaps_of_ascending host hlog, foldl_append,
    foldl_cons, foldl_nil]

end Fold

/-- A peer's messages come right under a `Grant` of `ReadWrite` to it. -/
def Gated (host : PeerId) (log : List SessionMessage) : Prop :=
  ∀ before m after, log = before ++ m :: after → m.peer.id ≠ host →
    lastAction host m.peer.id before = some (.grant m.peer.id .readWrite)

theorem actionOn_target {host : PeerId}
    (h : actionOn host peer m = some a) : a.target = peer := by
  unfold actionOn at h
  split at h
  · obtain ⟨-, htarget⟩ := Option.filter_eq_some_iff.mp h
    simpa using htarget
  · cases h

theorem lastAction_target {host : PeerId} {log : List SessionMessage}
    (h : lastAction host peer log = some a) : a.target = peer := by
  obtain ⟨m, -, hm⟩ := mem_filterMap.mp (mem_of_getLast? h)
  exact actionOn_target hm

variable {s : Session}

theorem lastAction_of_canWrite (hne : peer ≠ s.host)
    (hasc : Ascending SessionMessage.seq s.log) (hcaps : s.caps = projectCaps s.host s.log)
    (hwrite : s.canWrite peer = true) :
    lastAction s.host peer s.log = some (.grant peer .readWrite) := by
  unfold Session.canWrite at hwrite
  rw [hcaps, projectCaps_of_ascending _ hasc, foldl_stepCaps_apply _ hne] at hwrite
  cases hlast : lastAction s.host peer s.log with
  | none => simp [hlast] at hwrite
  | some a =>
    have htarget := lastAction_target hlast
    cases a with
    | revoke q => simp [hlast, CapabilityAction.leaves] at hwrite
    | grant q cap =>
      obtain rfl : q = peer := htarget
      cases cap with
      | read => simp [hlast, CapabilityAction.leaves, Capability.permitsWrite] at hwrite
      | readWrite => rfl

variable {p : PeerId}

theorem caps_of_canWrite (h : s.canWrite p = true) :
    s.caps p = some .readWrite := by
  unfold Session.canWrite at h
  cases hc : s.caps p with
  | none => simp [hc] at h
  | some cap =>
    cases cap with
    | read => simp [hc, Capability.permitsWrite] at h
    | readWrite => rfl

theorem leaves_ne {host : PeerId}
    (hact : actionOn host p m = some a) (hne : a ≠ .grant p .readWrite) :
    a.leaves ≠ some .readWrite := by
  have htarget := actionOn_target hact
  cases a with
  | revoke q => simp [CapabilityAction.leaves]
  | grant q cap =>
    obtain rfl : q = p := htarget
    intro hleaves
    obtain rfl : cap = .readWrite := Option.some.inj hleaves
    exact hne rfl

theorem stepCaps_ne {host : PeerId} (hne : p ≠ host) {caps : Caps}
    (hcaps : caps p ≠ some .readWrite) (hm : actionOn host p m ≠ some (.grant p .readWrite)) :
    stepCaps host caps m p ≠ some .readWrite := by
  rw [stepCaps_apply hne]
  cases hact : actionOn host p m with
  | none => simpa using hcaps
  | some a => exact leaves_ne hact fun heq => hm (by rw [hact, heq])

theorem lastAction_append (host p : PeerId) (l l' : List SessionMessage) :
    lastAction host p (l ++ l') = (lastAction host p l').or (lastAction host p l) := by
  simp [lastAction, filterMap_append, getLast?_append]

theorem projectCaps_append_ne {host : PeerId} (hne : p ≠ host) {log : List SessionMessage}
    (hlog : projectCaps host log p ≠ some .readWrite)
    (hm : actionOn host p m ≠ some (.grant p .readWrite)) :
    projectCaps host (log ++ [m]) p ≠ some .readWrite := by
  obtain ⟨u, v, hwithout, hwith⟩ :=
    insertionSort_append_singleton (r := fun a b : SessionMessage => a.seq ≤ b.seq) log m
  rw [projectCaps_eq_foldl, hwithout, foldl_stepCaps_apply host hne, lastAction_append] at hlog
  rw [projectCaps_eq_foldl, hwith, foldl_stepCaps_apply host hne, lastAction_append]
  cases hv : lastAction host p v with
  | some a =>
    have hlast : lastAction host p (m :: v) = some a := by
      rw [← singleton_append, lastAction_append, hv]
      rfl
    rw [hlast]
    rwa [hv] at hlog
  | none =>
    have hlast : lastAction host p (m :: v) = actionOn host p m := by
      rw [← singleton_append, lastAction_append, hv]
      cases hact : actionOn host p m <;> simp [lastAction, hact]
    rw [hlast]
    rw [hv] at hlog
    cases hact : actionOn host p m with
    | none => exact hlog
    | some a => exact leaves_ne hact fun heq => hm (by rw [hact, heq])

theorem gated_nil (host : PeerId) : Gated host [] := by
  intro before m after h
  simp at h

theorem Gated.append (h : Gated s.host s.log)
    (hasc : Ascending SessionMessage.seq s.log) (hcaps : s.caps = projectCaps s.host s.log)
    (hwrite : s.canWrite m.peer.id = true) : Gated s.host (s.log ++ [m]) := by
  intro before x after heq hne
  obtain rfl | ⟨last, rest, rfl⟩ := eq_nil_or_concat' after
  · obtain ⟨rfl, hx⟩ := append_inj' heq rfl
    obtain rfl : m = x := by simpa using hx
    exact lastAction_of_canWrite hne hasc hcaps hwrite
  · have hlog : s.log = before ++ x :: last := by
      have heq' : s.log ++ [m] = (before ++ x :: last) ++ [rest] := by simpa using heq
      exact (append_inj' heq' rfl).1
    exact h before x last hlog hne

theorem prepareSend_payload {ed : Ed25519} {d : Daemon ed} {nowMs : UInt64}
    {draft : Draft} (h : prepareSend d s nowMs draft = .ok m) :
    m.payload = draft.payload := by
  unfold prepareSend at h
  split at h
  · cases h
  split at h
  · cases h
  split at h
  · cases h
  · split at h
    · cases h
    · dsimp only at h
      split at h <;> cases h
      rfl

def Draft.actionOn (host peer : PeerId) (draft : Draft) : Option CapabilityAction :=
  if draft.kind = .capability ∧ draft.peer.id = host then
    (CapabilityAction.decode draft.payload).filter fun a => a.target = peer
  else none

theorem actionOn_of_prepareSend {ed : Ed25519} {d : Daemon ed} {nowMs : UInt64}
    {draft : Draft} (h : prepareSend d s nowMs draft = .ok m)
    (host peer : PeerId) : actionOn host peer m = draft.actionOn host peer := by
  have hm := prepareSend_ok d h
  rw [actionOn, Draft.actionOn, hm.kind, hm.peer, prepareSend_payload h]

end Artel
