import Artel.Registry.FanoutInvariant

namespace Artel.Fanout

open Registry List

variable {log₀ : List SessionMessage}

section Calls

variable {me : ℕ} {v : View} {β : Type} {R : β → View → Prop}

theorem follows_lookup {k : Option Handle → Async β}
    (hk : Follows (Inv log₀) (InStep log₀) me R (k (some 0)) v) :
    Follows (Inv log₀) (InStep log₀) me R (lookup.bind k) v := by
  apply Follows.waitFor
  intro s V e hI hv _ _
  rw [hI.entry]
  exact Follows.keep hv hI hk

theorem follows_lock {k : Session → Async β}
    (hk : ∀ session, Follows (Inv log₀) (InStep log₀) me R (k session) (.holding session)) :
    Follows (Inv log₀) (InStep log₀) me R ((lock me 0).bind k) .idle := by
  apply Follows.waitFor
  intro s V e hI hv hready _
  exact ⟨_, hI.lock (Option.isNone_iff_eq_none.mp hready) hv, hk _⟩

theorem follows_unlock {k : Unit → Async β} {session : Session}
    (hk : Follows (Inv log₀) (InStep log₀) me R (k ()) .idle) :
    Follows (Inv log₀) (InStep log₀) me R ((unlock 0).bind k) (.holding session) := by
  apply Follows.once
  intro s V e hI hv _
  refine ⟨.idle, hI.unlock (by rw [hv]; rfl) ?_ rfl ?_, hk⟩
  · intro m
    rw [hv]
    simp
  · exact fun _ _ _ h => by cases h

theorem quiet_store {α : Type} (l : Label) (op : Store.Disk → Store.IoResult α) :
    Quiet (Inv log₀) (InStep log₀) me v (store l op) := by
  apply Quiet.once
  intro e s V hI _ _
  split <;> exact hI.of_eq rfl rfl

variable {ed : Ed25519} (d : Daemon ed) (id : SessionId)

theorem follows_sendLocal (draft : Draft) :
    Follows (Inv log₀) (InStep log₀) me (fun _ w => w = .idle) (sendLocal d me 0 draft) .idle := by
  apply follows_lock
  intro session
  have hclock : Quiet (Inv log₀) (InStep log₀) me (.holding session) clock :=
    .once fun _ _ _ hI _ _ => hI
  apply hclock.andThen
  intro nowMs
  cases hprep : prepareSend d session nowMs draft with
  | error e =>
    apply follows_unlock
    exact rfl
  | ok m =>
    apply (quiet_store _ _).andThen
    intro result
    cases result with
    | error e =>
      apply follows_unlock
      exact rfl
    | ok _ =>
      apply Follows.once
      intro s V e hI hv _
      refine ⟨_, hI.commit hv (prepareSend_ok d hprep), ?_⟩
      apply Follows.once
      intro s V e hI hv _
      refine ⟨.owing m false, hI.unlock (by rw [hv]; rfl) ?_ rfl ?_, ?_⟩
      · intro k
        rw [hv]
        simp
      · exact fun _ _ _ h => by cases h
      apply Follows.once
      intro s V e hI hv hC
      refine ⟨.idle, hI.emit hv hC, ?_⟩
      split
      · exact rfl
      · have hpublish : Quiet (Inv log₀) (InStep log₀) me .idle (publish m) :=
          .once fun _ _ _ hI _ _ => hI.of_eq rfl rfl
        exact hpublish.andThen fun _ => rfl

theorem follows_send (draft : Draft) :
    Follows (Inv log₀) (InStep log₀) me (fun _ w => w = .idle) (send d id me draft) .idle := by
  unfold send
  split
  · exact rfl
  apply follows_lookup
  apply follows_lock
  intro session
  apply follows_unlock
  split
  · exact rfl
  split
  · apply Follows.once
    intro s V e hI hv _
    apply Follows.keep hv hI
    split <;> rfl
  · exact follows_sendLocal d draft

def Subscribed (since : Option Seq) : Outcome → View → Prop
  | .ok (.subscription h msgs start), w =>
    h = 0 ∧ ∃ session, w = .subscribed session start false ∧ msgs = replay session since
  | _, w => w = .idle

def Post : Call → Outcome → View → Prop
  | .subscribe since, r, w => Subscribed since r w
  | _, _, w => w = .idle

theorem Post.not_owing {o : Call} {r : Outcome} {w : View} (h : Post o r w) (m : SessionMessage)
    (locked : Bool) : w ≠ .owing m locked := by
  rintro rfl
  unfold Post at h
  split at h
  · unfold Subscribed at h
    split at h
    · obtain ⟨-, _, h, -⟩ := h
      cases h
    · cases h
  · cases h

theorem follows_subscribe (since : Option Seq) :
    Follows (Inv log₀) (InStep log₀) me (Subscribed since) (subscribe id me since) .idle := by
  apply follows_lookup
  apply follows_lock
  intro session
  apply Follows.once
  intro s V e hI hv hC
  refine ⟨_, hI.listen hv hC, ?_⟩
  apply Follows.once
  intro s V e hI hv _
  refine ⟨.subscribed session _ false, hI.unlock (by rw [hv]; rfl) ?_ rfl ?_, rfl, session, rfl, rfl⟩
  · intro m
    rw [hv]
    simp
  · intro session' start locked hs
    cases hs
    exact ⟨true, hv⟩

end Calls

/-- In increasing order of seq, and every due message of the log once. -/
structure Complete (since : Option Seq) (log got : List SessionMessage) : Prop where
  ascending : Ascending SessionMessage.seq got
  once : ∀ m ∈ log, isReserved m = false → since.getD Seq.ZERO < m.seq → got.count m = 1

theorem ascending_replay {session : Session} (since : Option Seq) {rest : List SessionMessage}
    (hasc : Ascending SessionMessage.seq (session.log ++ rest))
    (hpos : ∀ m ∈ rest, Seq.ZERO < m.seq) :
    Ascending SessionMessage.seq (replay session since ++ rest) := by
  obtain ⟨hlog, hrest, hcross⟩ := pairwise_append.mp hasc
  have hticket : ∀ m ∈ (session.workspaceTicket.map (syntheticTicketMessage session.host)).toList,
      m.seq = Seq.ZERO := by
    intro m hm
    obtain ⟨envelope, -, rfl⟩ := Option.map_eq_some_iff.mp (Option.mem_toList.mp hm)
    rfl
  unfold replay
  rw [append_assoc]
  apply pairwise_append.mpr
  refine ⟨?_, ?_, ?_⟩
  · cases session.workspaceTicket <;> simp
  · apply pairwise_append.mpr
    refine ⟨hlog.sublist filter_sublist, hrest, ?_⟩
    exact fun m hm k hk => hcross m (mem_of_mem_filter hm) k hk
  · intro m hm k hk
    rw [hticket m hm]
    rcases mem_append.mp hk with hk | hk
    · have hdue := (of_decide_eq_true (mem_filter.mp hk).2).1
      exact lt_of_le_of_lt (Seq.zero_le _) hdue
    · exact hpos k hk

theorem complete_replay {session : Session} {since : Option Seq} {rest : List SessionMessage}
    (hasc : Ascending SessionMessage.seq (session.log ++ rest))
    (hpos : ∀ m ∈ rest, Seq.ZERO < m.seq) :
    Complete since (session.log ++ rest) (replay session since ++ rest) := by
  have hgot := ascending_replay since hasc hpos
  refine ⟨hgot, fun m hm hres hdue => ?_⟩
  have hnodup : (replay session since ++ rest).Nodup := hgot.imp fun hlt heq => by
    rw [heq] at hlt
    exact lt_irrefl _ hlt
  apply count_eq_one_of_mem hnodup
  rcases mem_append.mp hm with hm | hm
  · apply mem_append_left
    apply mem_append_right
    exact mem_filter.mpr ⟨hm, by simp [hdue, hres]⟩
  · exact mem_append_right _ hm

def IsFanout : Call → Prop
  | .send _ => True
  | .subscribe _ => True
  | _ => False

instance : DecidablePred IsFanout
  | .send _ | .subscribe _ => isTrue trivial
  | .host _ _ | .join _ _ | .leave _ | .hostClosedSession | .advanceHostEpochWatermark _ |
    .ensureMember _ _ | .inbound _ _ | .deliver _ _ => isFalse not_false

instance (log₀ : List SessionMessage) (l : Label) (e : Env) (s : World) :
    Decidable (InStep log₀ l e s) := by
  unfold InStep
  split <;> infer_instance

def hosting (session : Session) (disk : Store.Disk) : World :=
  (World.empty session disk).insert session

theorem inv_hosting {session : Session} (hnum : Numbered session) (disk : Store.Disk) :
    Inv session.log (hosting session disk) fun _ => .idle := by
  have hcell : (hosting session disk).cells 0 = ⟨session, none, []⟩ :=
    World.insert_cells_self (World.empty session disk) session
  constructor
  · rfl
  · rw [hcell]
    exact hnum
  · rw [hcell]
    exact fun m hm hm₀ => absurd hm hm₀
  · exact fun i => Knows.idle _ i
  · rw [hcell]
    exact ⟨[], by simp [messages], by simp⟩
  · simp

/-- Replay and live messages are complete if receivers and sends are in step. -/
theorem subscribed_complete {ed : Ed25519} (d : Daemon ed) (id : SessionId) (session : Session)
    (disk : Store.Disk) (hnum : Numbered session) (ms : List (Move Call Env))
    (hms : CallsMeet d id (hosting session disk) IsFanout (InStep session.log) ms)
    (hq : (runCalls d id (hosting session disk) ms).Quiescent) (i : ℕ) (since : Option Seq)
    (hcall : (runCalls d id (hosting session disk) ms).callAt i = some (.subscribe since))
    (h : Handle) (msgs : List SessionMessage) (start : ℕ)
    (hresult : (runCalls d id (hosting session disk) ms).result i =
      some (.ok (.subscription h msgs start))) :
    Complete since ((runCalls d id (hosting session disk) ms).world.cells h).session.log
      (msgs ++ messages (((runCalls d id (hosting session disk) ms).world.cells h).feed.drop
        start)) := by
  have hbody : ∀ j o, IsFanout o →
      Follows (Inv session.log) (InStep session.log) j (Post o) (Call.body d id j o) .idle := by
    intro j o ho
    cases o with
    | send draft => exact follows_send d id draft
    | subscribe since => exact follows_subscribe id since
    | _ => cases ho
  have htracked := Pool.tracked_run hbody (Pool.tracked_nil (inv_hosting hnum disk)) hms
  obtain ⟨V, hI, hpost, hviews⟩ := htracked.of_quiescent hq
  obtain ⟨rfl, snapshot, hview, rfl⟩ := hpost i _ _ hcall hresult
  obtain ⟨-, -, hsnap, -⟩ := (hI.knows i).subscribed snapshot start false hview
  have hsent : ((runCalls d id (hosting session disk) ms).world.cells 0).session.log =
      session.log ++ messages ((runCalls d id (hosting session disk) ms).world.cells 0).feed := by
    obtain ⟨rest, hlog, hrest⟩ := hI.sent
    -- with no call in flight nothing is owed
    have hnil : rest = [] := by
      apply eq_nil_iff_forall_not_mem.mpr
      intro m hm
      obtain ⟨j, locked, hj⟩ := hrest m hm
      rcases hviews j with hidle | ⟨o, a, ho⟩
      · rw [hidle] at hj
        cases hj
      · exact ho.not_owing m locked hj
    rw [hlog, hnil, append_nil]
  -- the log is the snapshot and what was sent after it
  have hfinal : ((runCalls d id (hosting session disk) ms).world.cells 0).session.log =
      snapshot.log ++
        messages (((runCalls d id (hosting session disk) ms).world.cells 0).feed.drop start) := by
    rw [hsent, hsnap, append_assoc, ← messages_append, take_append_drop]
  have hasc := hI.numbered.ascending
  have hnew : ∀ m ∈ messages (((runCalls d id (hosting session disk) ms).world.cells 0).feed.drop
      start), Seq.ZERO < m.seq := by
    intro m hm
    apply hI.positive m
    · rw [hfinal]
      exact mem_append_right _ hm
    · intro hm₀
      have hcross := (pairwise_append.mp (hsent ▸ hasc)).2.2
      refine lt_irrefl _ (hcross m hm₀ m ?_)
      rw [← take_append_drop start
        ((runCalls d id (hosting session disk) ms).world.cells 0).feed, messages_append]
      exact mem_append_right _ hm
  rw [hfinal] at hasc ⊢
  exact complete_replay hasc hnew

section Sample

open Sample

def hosted : Session := createdSession session call 0

def hostedDisk : Store.Disk := (Store.create hosted.record noDisk).2

def oneByOne : List (Move Call Env) :=
  [.call (.send (note [1])), .call (.subscribe none), .call (.send (note [2]))] ++
    steps 0 10 calm ++ steps 1 4 calm ++ steps 2 10 calm

theorem subscribed_complete_oneByOne :
    Complete none
      ((runCalls daemon session (hosting hosted hostedDisk) oneByOne).world.cells 0).session.log
      (((runCalls daemon session (hosting hosted hostedDisk) oneByOne).result 1).elim []
          subscribedReplay ++
        messages (((runCalls daemon session (hosting hosted hostedDisk) oneByOne).world.cells
          0).feed.drop 1)) :=
  subscribed_complete daemon session hosted hostedDisk (numbered_createdSession session call 0)
    oneByOne (by decide +kernel) (by decide +kernel) 1 none (by decide +kernel) 0
    (((runCalls daemon session (hosting hosted hostedDisk) oneByOne).result 1).elim []
      subscribedReplay) 1 (by decide +kernel)

/-- The snapshot falls between the commit and the event. -/
def snapshotInBetween : Pool Call World Env Label Outcome :=
  runCalls daemon session (hosting hosted hostedDisk)
    ([.call (.send (note [1])), .call (.subscribe none)] ++
      steps 0 8 calm ++ steps 1 4 calm ++ steps 0 2 calm)

/-- The one message is in the replay and comes again as a live event. -/
theorem replayed_and_live : snapshotInBetween.Quiescent ∧
    snapshotInBetween.callAt 1 = some (.subscribe none) ∧
    ∃ m ∈ (snapshotInBetween.world.cells 0).session.log,
      snapshotInBetween.result 1 = some (.ok (.subscription 0 [m] 0)) ∧
      ¬ Complete none (snapshotInBetween.world.cells 0).session.log
        ([m] ++ messages ((snapshotInBetween.world.cells 0).feed.drop 0)) := by
  have hrun : snapshotInBetween.Quiescent ∧
      snapshotInBetween.callAt 1 = some (.subscribe none) ∧
      ∃ m ∈ (snapshotInBetween.world.cells 0).session.log,
        snapshotInBetween.result 1 = some (.ok (.subscription 0 [m] 0)) ∧
        isReserved m = false ∧ Seq.ZERO < m.seq ∧
        ([m] ++ messages ((snapshotInBetween.world.cells 0).feed.drop 0)).count m = 2 := by
    decide +kernel
  obtain ⟨hq, hcall, m, hm, hresult, hres, hdue, htwice⟩ := hrun
  refine ⟨hq, hcall, m, hm, hresult, fun hcomplete => ?_⟩
  have hone := hcomplete.once m hm hres hdue
  omega

end Sample

end Artel.Fanout
