import Artel.Lib.Solo
import Artel.Registry.GapInvariant

namespace Artel.GapRecovery

open Registry Fanout Function

variable {log₀ : List SessionMessage} {since₀ : Option Seq}

/-- Frames arrive and are sent by seq, and a forwarder is replaced after its replay. -/
def InOrder (log₀ : List SessionMessage) : ClientCall → Label → Env → World × Client → Prop
  | .plain (.inbound _ m), .update h, _, w => ∀ k ∈ (w.1.cells h).session.log, k.seq < m.seq
  | _, .emit h (.message m), _, w =>
    ∀ k ∈ (w.1.cells h).session.log, isReserved k = false → k.seq < m.seq →
      k ∈ log₀ ∨ .message k ∈ (w.1.cells h).feed
  | .serve, .spawn, _, w => ∀ f, w.2.forwarders[0]? = some f → f.replay = []
  | _, _, _, _ => True

def inOrder (log₀ : List SessionMessage) : ClientCall → Label → World × Client → Bool
  | .plain (.inbound _ m), .update h, w => decide (∀ k ∈ (w.1.cells h).session.log, k.seq < m.seq)
  | _, .emit h (.message m), w =>
    decide (∀ k ∈ (w.1.cells h).session.log, isReserved k = false → k.seq < m.seq →
      k ∈ log₀ ∨ .message k ∈ (w.1.cells h).feed)
  | .serve, .spawn, w => decide (∀ f ∈ w.2.forwarders[0]?, f.replay = [])
  | _, _, _ => true

theorem inOrder_iff (log₀ : List SessionMessage) (o : ClientCall) (l : Label) (e : Env)
    (w : World × Client) : inOrder log₀ o l w = true ↔ InOrder log₀ o l e w := by
  unfold inOrder InOrder
  split <;> simp only [decide_eq_true_eq, Option.mem_def]

instance (log₀ : List SessionMessage) (o : ClientCall) (l : Label) (e : Env) (w : World × Client) :
    Decidable (InOrder log₀ o l e w) :=
  decidable_of_iff _ (inOrder_iff log₀ o l e w)

section Calls

variable {o : ClientCall} {i : ℕ} {v : View}

/-- A part of a registry call, to which the client is nothing. -/
abbrev Outline (log₀ : List SessionMessage) (since₀ : Option Seq) (o : ClientCall) {α : Type} (i : ℕ)
    (Q : α → View → Prop) (a : Async α) (v : View) : Prop :=
  Follows (Inv log₀ since₀) (InOrder log₀ o) i Q (a.observe fun _ _ _ _ c => c) v

theorem outline_silent {α : Type} {l : Label} {ready : Env → World → Bool}
    {f : Env → World → α × World} (hentry : ∀ e s, (f e s).2.sessions = s.sessions)
    (hcells : ∀ e s, (f e s).2.cells = s.cells) :
    Outline log₀ since₀ o i (fun _ w => w = v) (Fiber.waitFor l ready f) v := by
  apply Follows.waitForObserve
  intro s c V e hI hv _ _
  refine ⟨v, ?_, rfl⟩
  rw [← hv, update_eq_self]
  exact hI.of_eq (hentry e s) (hcells e s)

theorem outline_store {α : Type} (l : Label) (op : Store.Disk → Store.IoResult α) :
    Outline log₀ since₀ o i (fun _ w => w = v) (store l op) v := by
  apply outline_silent
  · intro e s
    split <;> rfl
  · intro e s
    split <;> rfl

theorem outline_lookup : Outline log₀ since₀ o i (fun a w => a = some 0 ∧ w = v) lookup v := by
  apply Follows.waitForObserve
  intro s c V e hI hv _ _
  refine ⟨v, ?_, hI.entry, rfl⟩
  rwa [← hv, update_eq_self]

theorem outline_lock (hv : v.held = none) :
    Outline log₀ since₀ o i (fun session w => w = { v with held := some session }) (lock i 0) v := by
  apply Follows.waitForObserve
  rintro s c V e hI rfl hready _
  refine ⟨_, hI.set_holder (some _) (fun j _ => ?_) ?_, rfl⟩
  · by_contra hne
    obtain ⟨session, hs⟩ := Option.ne_none_iff_exists'.mp hne
    have hfree : (s.cells 0).holder = none := Option.isNone_iff_eq_none.mp hready
    exact absurd (hfree.symm.trans ((hI.knows j).held session hs).1) nofun
  · rintro session ⟨⟩
    exact ⟨rfl, rfl⟩

variable {session : Session}

theorem outline_unlock (hv : v.held = some session) :
    Outline log₀ since₀ o i (fun _ w => w = { v with held := none }) (unlock 0) v := by
  apply Follows.onceObserve
  rintro s c V e hI rfl _
  refine ⟨_, hI.set_holder none (fun j hj => hI.not_held hv hj) ?_, rfl⟩
  exact fun _ h => absurd h nofun

variable {m : SessionMessage}

theorem mirrorInsert_newest {ed : Ed25519} {pos : ℕ}
    (hasc : Ascending SessionMessage.seq session.log) (h : mirrorAccepts ed session m = some pos)
    (hnew : ∀ k ∈ session.log, k.seq < m.seq) :
    (mirrorInsert session pos m).log = session.log ++ [m] := by
  obtain ⟨hasc', hperm, -⟩ := mirrorInsert_of_accepts ed session m pos hasc h
  have happend : Ascending SessionMessage.seq (session.log ++ [m]) :=
    (Ascending.append_singleton _).mpr ⟨hasc, hnew⟩
  exact hperm.eq_of_pairwise (fun a b _ _ hab hba => absurd hab (lt_asymm hba)) hasc' happend

theorem le_head_mirrorInsert {pos : ℕ}
    (hlog : (mirrorInsert session pos m).log = session.log ++ [m])
    (hle : ∀ k ∈ session.log, k.seq ≤ session.head) :
    ∀ k ∈ (mirrorInsert session pos m).log, k.seq ≤ (mirrorInsert session pos m).head := by
  intro k hk
  rw [hlog] at hk
  simp only [mirrorInsert]
  rcases List.mem_append.mp hk with hk | hk
  · split
    · rename_i hlt
      exact le_trans (hle k hk) (le_of_lt hlt)
    · exact hle k hk
  · rw [List.mem_singleton.mp hk]
    split
    · exact le_refl _
    · rename_i hge
      exact not_lt.mp hge

theorem follows_inbound (ed : Ed25519) (m : SessionMessage) :
    Outline log₀ since₀ (.plain (.inbound 0 m)) i (fun _ w => w = .idle) (inbound ed i 0 m) .idle := by
  refine Follows.bindObserve (Q := fun _ w => w = .idle) ?_ ?_
  · exact outline_silent (fun _ _ => rfl) fun _ _ => rfl
  rintro _ w rfl
  apply (outline_lock rfl).bindObserve
  rintro session w rfl
  cases hacc : mirrorAccepts ed session m with
  | none =>
    apply (outline_unlock rfl).bindObserve
    rintro _ w rfl
    rfl
  | some pos =>
    apply (outline_store _ _).bindObserve
    rintro result w rfl
    cases result with
    | error err =>
      apply (outline_unlock rfl).bindObserve
      rintro _ w rfl
      rfl
    | ok u =>
      refine Follows.bindObserve (Q := fun _ w => w = ⟨some (mirrorInsert session pos m),
        if isReserved m then none else some m, .nothing⟩) ?_ ?_
      · apply Follows.onceObserve
        intro s c V e hI hv hnew
        have hheld : (V i).held = some session := by rw [hv]
        obtain ⟨-, rfl⟩ := (hI.knows i).held session hheld
        have hlog := mirrorInsert_newest hI.ascending hacc hnew
        have hasc := (mirrorInsert_of_accepts ed _ m pos hI.ascending hacc).1
        refine ⟨_, hI.commit (if isReserved m then none else some m) hheld (by rw [hv]; rfl) hasc
          (le_head_mirrorInsert hlog hI.le_head) ?_, by rw [hv]; rfl⟩
        rw [hlog, surface_append]
        cases hres : isReserved m <;> simp [surface, hres]
      rintro _ w rfl
      split
      · rename_i hres
        apply (outline_unlock rfl).bindObserve
        rintro _ w rfl
        rfl
      rename_i hres
      refine Follows.bindObserve (Q := fun _ w => w = ⟨some (mirrorInsert session pos m), none,
        .nothing⟩) ?_ ?_
      · apply Follows.onceObserve
        intro s c V e hI hv hturn
        exact ⟨_, hI.emit (by rw [hv]) hturn, by rw [hv]⟩
      rintro _ w rfl
      apply (outline_unlock rfl).bindObserve
      rintro _ w rfl
      rfl

variable {ed : Ed25519} (d : Daemon ed) (id : SessionId)

theorem surface_commitSend {draft : Draft}
    (hm : Prepared ed session draft m)
    (hfree : (if draft.kind = .system then reservedSystemAction draft.action else none) = none) :
    surface (commitSend session m).log = surface session.log ++ [m] := by
  have hres : isReserved m = false := by
    unfold isReserved
    rw [hm.kind, hm.action]
    by_cases hsys : draft.kind = .system
    · rw [if_pos hsys] at hfree
      simp [hfree]
    · simp [hsys]
  simp [commitSend, surface, hres]

theorem follows_sendLocal (draft : Draft)
    (hfree : (if draft.kind = .system then reservedSystemAction draft.action else none) = none) :
    Outline log₀ since₀ (.plain (.send draft)) i (fun _ w => w = .idle) (sendLocal d i 0 draft) .idle := by
  apply (outline_lock rfl).bindObserve
  rintro session w rfl
  refine Follows.bindObserve (Q := fun _ w => w = { View.idle with held := some session }) ?_ ?_
  · exact outline_silent (fun _ _ => rfl) fun _ _ => rfl
  rintro nowMs w rfl
  cases hprep : prepareSend d session nowMs draft with
  | error err =>
    apply (outline_unlock rfl).bindObserve
    rintro _ w rfl
    rfl
  | ok m =>
    apply (outline_store _ _).bindObserve
    rintro result w rfl
    cases result with
    | error err =>
      apply (outline_unlock rfl).bindObserve
      rintro _ w rfl
      rfl
    | ok u =>
      have hm := prepareSend_ok d hprep
      refine Follows.bindObserve (Q := fun _ w => w = ⟨some (commitSend session m), some m,
        .nothing⟩) ?_ ?_
      · apply Follows.onceObserve
        intro s c V e hI hv _
        have hheld : (V i).held = some session := by rw [hv]
        obtain ⟨-, rfl⟩ := (hI.knows i).held session hheld
        have hlt : ∀ k ∈ (s.cells 0).session.log, k.seq < m.seq := fun k hk =>
          (Seq.lt_next_iff _ _ _ hm.seq).mpr (hI.le_head k hk)
        refine ⟨_, hI.commit (some m) hheld (by rw [hv]; rfl) ?_ ?_ (surface_commitSend hm hfree),
          by rw [hv]; rfl⟩
        · exact (Ascending.append_singleton _).mpr ⟨hI.ascending, hlt⟩
        · intro k hk
          rcases List.mem_append.mp hk with hk | hk
          · exact le_of_lt (hlt k hk)
          · rw [List.mem_singleton.mp hk]
            exact le_refl _
      rintro _ w rfl
      apply (outline_unlock rfl).bindObserve
      rintro _ w rfl
      refine Follows.bindObserve (Q := fun _ w => w = .idle) ?_ ?_
      · apply Follows.onceObserve
        intro s c V e hI hv hturn
        exact ⟨_, hI.emit (by rw [hv]) hturn, by rw [hv]; rfl⟩
      rintro _ w rfl
      split
      · rfl
      · refine Follows.bindObserve (Q := fun _ w => w = .idle) ?_ ?_
        · exact outline_silent (fun _ _ => rfl) fun _ _ => rfl
        rintro _ w rfl
        rfl

theorem follows_send (draft : Draft) :
    Outline log₀ since₀ (.plain (.send draft)) i (fun _ w => w = .idle) (send d id i draft) .idle := by
  unfold send
  split
  · rfl
  rename_i hfree
  apply outline_lookup.bindObserve
  rintro _ w ⟨rfl, rfl⟩
  apply (outline_lock rfl).bindObserve
  rintro session w rfl
  apply (outline_unlock rfl).bindObserve
  rintro _ w rfl
  split
  · rfl
  split
  · unfold forwardRemoteSend
    refine Follows.bindObserve (Q := fun _ w => w = .idle) ?_ ?_
    · exact outline_silent (fun _ _ => rfl) fun _ _ => rfl
    rintro _ w rfl
    split <;> rfl
  · exact follows_sendLocal d draft hfree

/-- A subscription ends with its snapshot and the place in the channel. -/
def Subscribed (since : Option Seq) : Outcome → View → Prop
  | .ok (.subscription h msgs start), w => h = 0 ∧ ∃ session, msgs = replay session since ∧
      w = ⟨none, none, .listening since session start⟩
  | _, _ => False

theorem follows_subscribe (since : Option Seq) :
    Outline log₀ since₀ .serve i (Subscribed since) (subscribe id i since) ⟨none, none, .asked since⟩ := by
  apply outline_lookup.bindObserve
  rintro _ w ⟨rfl, rfl⟩
  apply (outline_lock rfl).bindObserve
  rintro session w rfl
  refine Follows.bindObserve
    (Q := fun start w => w = ⟨some session, none, .listening since session start⟩) ?_ ?_
  · apply Follows.onceObserve
    intro s c V e hI hv _
    exact ⟨_, hI.listen (by rw [hv]) (by rw [hv]), by rw [hv]⟩
  rintro start w rfl
  apply (outline_unlock rfl).bindObserve
  rintro _ w rfl
  exact ⟨rfl, session, rfl, rfl⟩

theorem follows_serve :
    Follows (Inv log₀ since₀) (InOrder log₀ .serve) i (fun _ w => w = .idle) (serveSubscribe id i)
      .idle := by
  unfold serveSubscribe
  simp only [Fiber.bind_eq]
  apply Follows.waitFor
  rintro ⟨s, c⟩ V e hI hv hready _
  simp only [Bool.and_eq_true, Option.isNone_iff_eq_none, Bool.not_eq_true', List.isEmpty_eq_false_iff]
    at hready
  obtain ⟨hserving, hne⟩ := hready
  obtain ⟨since, requests, hrequests⟩ := List.exists_cons_of_ne_nil hne
  refine ⟨⟨none, none, .asked since⟩, ?_, ?_⟩
  · have h := hI.take hv hserving hrequests
    rw [hv] at h
    simp only [hrequests, List.tail_cons]
    exact h
  simp only [hrequests, List.headD_cons]
  apply (follows_subscribe id since).bind
  intro r w hr
  unfold Subscribed at hr
  split at hr
  · obtain ⟨rfl, session, rfl, rfl⟩ := hr
    intro w V e hI hv _ hdone
    have h := hI.install (by rw [hv]) hdone
    rw [hv] at h
    exact ⟨_, h, rfl⟩
  · exact hr.elim

end Calls

/-- The session's own calls are sends and, at a mirror, the frames it is fed. -/
def OnSession : ClientCall → Prop
  | .plain (.send _) => True
  | .plain (.inbound h _) => h = 0
  | .plain _ => False
  | _ => True

instance : DecidablePred OnSession
  | .plain (.send _) | .serve | .forward _ | .receive => isTrue trivial
  | .plain (.inbound h _) => inferInstanceAs (Decidable (h = 0))
  | .plain (.host _ _) | .plain (.join _ _) | .plain (.leave _) | .plain .hostClosedSession |
    .plain (.advanceHostEpochWatermark _) | .plain (.ensureMember _ _) | .plain (.subscribe _) |
    .plain (.deliver _ _) => isFalse not_false

theorem follows_body {ed : Ed25519} (d : Daemon ed) (id : SessionId) (i : ℕ) (o : ClientCall)
    (ho : OnSession o) :
    Follows (Inv log₀ since₀) (InOrder log₀ o) i (fun _ w => w = .idle) (ClientCall.body d id i o) .idle := by
  cases o with
  | plain call =>
    cases call with
    | send draft => exact (follows_send d id draft).bind fun _ _ h => h
    | inbound h m =>
      obtain rfl : h = 0 := ho
      exact (follows_inbound ed m).bind fun _ _ h => h
    | _ => cases ho
  | serve => exact follows_serve id
  | forward k =>
    intro w V e hI hv _ _
    refine ⟨.idle, ?_, rfl⟩
    rw [← hv, update_eq_self]
    exact hI.forward k
  | receive =>
    intro w V e hI hv _ _
    refine ⟨.idle, ?_, rfl⟩
    rw [← hv, update_eq_self]
    exact hI.receive

theorem inv_attached {session : Session} (hasc : Ascending SessionMessage.seq session.log)
    (hle : ∀ m ∈ session.log, m.seq ≤ session.head) (disk : Store.Disk) (since : Option Seq) :
    Inv session.log since (attached session disk, Client.start since) fun _ => .idle := by
  have hcell : (attached session disk).cells 0 = ⟨session, none, []⟩ :=
    World.insert_cells_self (World.empty session disk) session
  refine ⟨rfl, rfl, ?_, ?_, fun i => ⟨nofun, trivial⟩, ⟨[], ?_, ?_⟩, Seq.ZERO, ?_, .inl rfl, nofun, nofun,
    nofun, ?_⟩
  · rwa [hcell]
  · rwa [hcell]
  · rw [hcell]
    simp [messages]
  · refine fun i m => ⟨?_, ?_⟩
    · rintro ⟨⟩
    · rintro ⟨⟩
  · exact fun m _ hlt hzero => absurd (lt_of_lt_of_le hlt hzero) (not_lt.mpr (Seq.zero_le _))
  · intro since' hs
    rw [List.mem_singleton.mp hs]
    exact .inl (le_refl _)

section Sample

open Sample

def mirror : Session := .new session (peer 0) .Remote

def mirrorDisk : Store.Disk := (Store.create mirror.record noDisk).2

def joiner : Daemon .checksum := ⟨peer 1, some (peer 1)⟩

def arrival (seq : UInt64) : ClientCall := .plain (.inbound 0 (message 0 seq .chat "" []))

def calmly : List Env := List.replicate 8 calm

def followed : List ClientCall :=
  [.serve, arrival 1, .forward 0, .receive, .forward 0, .receive]

/-- The host tells the mirror of an upgrade, which no log keeps. -/
def upgrade : ClientCall := .plain (.deliver (peer 0) (.upgrade []))

def upgradeEvent : Event := .message (syntheticSystemMessage (peer 0) UPGRADE_ACTION [])

structure AtRest (w : World) : Prop where
  entry : w.sessions = some 0
  writer : w.writer = none
  holder : (w.cells 0).holder = none
  kind : (w.cells 0).session.kind = .Remote
  host : (w.cells 0).session.host = peer 0

def flooded (w : World) (n : ℕ) : World :=
  w.modify 0 fun x => { x with feed := x.feed ++ List.replicate n upgradeEvent }

theorem atRest_flooded {w : World} (hw : AtRest w) (n : ℕ) : AtRest (flooded w n) := by
  have hcell : (flooded w n).cells 0 =
      { w.cells 0 with feed := (w.cells 0).feed ++ List.replicate n upgradeEvent } :=
    World.modify_cells_self ..
  refine ⟨hw.entry, hw.writer, ?_, ?_, ?_⟩ <;> rw [hcell]
  · exact hw.holder
  · exact hw.kind
  · exact hw.host

theorem flooded_flooded (w : World) (n k : ℕ) : flooded (flooded w n) k = flooded w (n + k) := by
  simp only [flooded, World.modify, update_self, update_idem, List.append_assoc,
    List.replicate_append_replicate]

theorem exec_upgrade {w : World} (hw : AtRest w) (c : Client) (i : ℕ) :
    (ClientCall.body joiner session i upgrade).exec calmly (w, c) =
      (.ret (), (flooded w 1, c)) := by
  obtain ⟨hentry, hwriter, hholder, hkind, hhost⟩ := hw
  have hfree : refuseDelivery (w.cells 0).session (peer 0) "upgrades" = none := by
    simp [refuseDelivery, hkind, hhost]
  simp only [ClientCall.body, upgrade, Call.body, emitUpgrade, emitSynthetic, lookup, lookupAs, lock,
    unlock, emit, Fiber.bind_eq, Fiber.pure_eq, Fiber.waitFor, Fiber.once, Fiber.bind, Fiber.observe,
    calmly, List.replicate, Fiber.exec, hwriter, hentry, hholder, hfree, hhost, Option.isNone_none,
    if_true]
  simp [flooded, World.modify, upgradeEvent, hholder]

theorem soloRun_upgrades {w : World} (hw : AtRest w) (c : Client) (n i : ℕ) :
    Pool.soloRun (ClientCall.body joiner session) calmly i (List.replicate n upgrade) (w, c) =
      ((flooded w n, c), List.replicate n (upgrade, .ret ())) := by
  induction n generalizing w i with
  | zero => simp [Pool.soloRun, flooded, World.modify]
  | succ n ih =>
    have hrest := ih (atRest_flooded hw 1) (i + 1)
    rw [flooded_flooded, Nat.add_comm 1 n] at hrest
    simp only [List.replicate_succ, Pool.soloRun, exec_upgrade hw, hrest]

/-- Seq 2 reaches the mirror and the client before seq 1 reaches the mirror. -/
def overtaken : List ClientCall :=
  [.serve, arrival 2, .forward 0, .receive, .forward 0, .receive, arrival 1]

def recovery : List ClientCall := [.forward 0, .receive, .serve, .forward 0, .receive]

def lagging (n : ℕ) : List ClientCall := overtaken ++ List.replicate n upgrade ++ recovery

def lagged (n : ℕ) : Pool ClientCall (World × Client) Env Label Unit :=
  runClient joiner session mirror mirrorDisk none (Pool.inTurn calmly 0 (lagging n))

def early : (World × Client) × List (ClientCall × Fiber (World × Client) Env Label Unit) :=
  Pool.soloRun (ClientCall.body joiner session) calmly 0 overtaken
    (attached mirror mirrorDisk, Client.start none)

theorem atRest_early : AtRest early.1.1 := by
  have h : early.1.1.sessions = some 0 ∧ early.1.1.writer = none ∧
      (early.1.1.cells 0).holder = none ∧ (early.1.1.cells 0).session.kind = .Remote ∧
      (early.1.1.cells 0).session.host = peer 0 := by
    decide +kernel
  exact ⟨h.1, h.2.1, h.2.2.1, h.2.2.2.1, h.2.2.2.2⟩

def late (n : ℕ) : (World × Client) × List (ClientCall × Fiber (World × Client) Env Label Unit) :=
  Pool.soloRun (ClientCall.body joiner session) calmly (7 + n) recovery
    (flooded early.1.1 n, early.1.2)

theorem lagged_eq (n : ℕ) : lagged n =
    ⟨(late n).1, early.2 ++ List.replicate n (upgrade, .ret ()) ++ (late n).2⟩ := by
  have hrun := Pool.history_inTurn (ClientCall.body joiner session) (fun k => Empty.elim k) calmly
    (lagging n) ⟨(attached mirror mirrorDisk, Client.start none), []⟩
  have hflood := soloRun_upgrades atRest_early early.1.2 n 7
  have hearly : Pool.soloRun (ClientCall.body joiner session) calmly 0 overtaken
      (attached mirror mirrorDisk, Client.start none) = early := by rw [early]
  have hlate : Pool.soloRun (ClientCall.body joiner session) calmly (7 + n) recovery
      (flooded early.1.1 n, early.1.2) = late n := by rw [late]
  have hlen : overtaken.length = 7 := rfl
  simp only [lagging, Pool.soloRun_append, List.length_append, List.length_replicate, List.length_nil,
    List.nil_append, hlen, Nat.zero_add, hearly, hflood, hlate] at hrun
  rw [lagged, lagging]
  exact hrun

end Sample

end Artel.GapRecovery
