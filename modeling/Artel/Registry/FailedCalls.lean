import Artel.Registry.Deliveries

namespace Artel.Failing

open Store Registry Fiber

/-- The map, every session in memory and every event channel are as they were. -/
def Untouched (s s' : World) : Prop :=
  s'.sessions = s.sessions ∧ ∀ h, (s'.cells h).session = (s.cells h).session ∧
    (s'.cells h).feed = (s.cells h).feed

def Fails {ε α : Type} (a : Except ε α) : Prop := ∃ e, a = .error e

theorem untouched_refl (s : World) : Untouched s s := ⟨rfl, fun _ => ⟨rfl, rfl⟩⟩

theorem Untouched.trans {s s' s'' : World} (h : Untouched s s') (h' : Untouched s' s'') :
    Untouched s s'' :=
  ⟨h'.1.trans h.1, fun k => ⟨(h'.2 k).1.trans (h.2 k).1, (h'.2 k).2.trans (h.2 k).2⟩⟩

theorem untouched_holder (s : World) (h : Handle) (holder : Option ℕ) :
    Untouched s (s.modify h fun c => { c with holder := holder }) := by
  refine ⟨rfl, fun k => ?_⟩
  by_cases hk : k = h
  · rw [hk, World.modify_cells_self]
    exact ⟨rfl, rfl⟩
  · rw [World.modify_cells_of_ne _ _ hk]
    exact ⟨rfl, rfl⟩

abbrev Still {α : Type} (t : Async α) : Prop := t.Each fun _ => Untouched

abbrev Safe {ε α : Type} (t : Async (Except ε α)) : Prop := t.Spares Untouched Fails

section Calls

variable {ed : Ed25519} (d : Daemon ed) (id : SessionId) {me : ℕ}

theorem not_fails {ε α : Type} (a : α) : ¬ Fails (.ok a : Except ε α) := nofun

theorem still_lookup : Still lookup := each_waitFor fun _ s => untouched_refl s

theorem still_clock : Still clock := each_waitFor fun _ s => untouched_refl s

theorem still_lock (h : Handle) : Still (lock me h) :=
  each_waitFor fun _ s => untouched_holder s h (some me)

theorem still_unlock (h : Handle) : Still (unlock h) :=
  each_waitFor fun _ s => untouched_holder s h none

theorem still_store {α : Type} (l : Label) (op : Disk → IoResult α) : Still (store l op) := by
  refine each_waitFor fun e s => ?_
  split <;> exact untouched_refl s

theorem still_writeMap : Still (writeMap me) := each_waitFor fun _ s => untouched_refl s

theorem still_releaseMap : Still releaseMap := each_waitFor fun _ s => untouched_refl s

theorem safe_unlock {ε α : Type} (h : Handle) (a : Except ε α) :
    Safe ((unlock h).bind fun _ => .ret a) :=
  (still_unlock h).andThen fun _ => trivial

theorem safe_stored {α β ε γ : Type} (t : Async α) (u : α → Async β) (a : γ) :
    Safe (t.bind fun x => (u x).bind fun _ => .ret (.ok a : Except ε γ)) :=
  Returns.spares (returns_bind fun _ => returns_bind fun _ => not_fails a)

theorem still_lockLocalSession : Still (lockLocalSession id me) := by
  refine still_lookup.option trivial fun h => ?_
  refine (still_lock h).bind fun s => ?_
  split
  · exact (still_unlock h).bind fun _ => trivial
  · trivial

theorem safe_issueTicket (grantedCap : Capability) (expiryMs : UInt64) (mint : Mint) :
    Safe (issueTicket d id me grantedCap expiryMs mint) := by
  refine (still_lockLocalSession id).thenExcept (fun _ => trivial) fun ⟨h, s⟩ => ?_
  exact (still_store _ _).thenExcept (fun _ => safe_unlock h _) fun _ => safe_stored _ _ _

theorem safe_revokeTicket (ticket : TicketId) : Safe (revokeTicket id me ticket) := by
  refine (still_lockLocalSession id).thenExcept (fun _ => trivial) fun ⟨h, s⟩ => ?_
  dsimp only
  split
  · exact safe_unlock h _
  · split
    · exact safe_unlock h _
    · exact (still_store _ _).thenExcept (fun _ => safe_unlock h _) fun _ => safe_stored _ _ _

theorem safe_removeMember (peer : PeerId) : Safe (removeMember id me peer) := by
  refine (still_lockLocalSession id).thenExcept (fun _ => trivial) fun ⟨h, s⟩ => ?_
  dsimp only
  split
  · exact safe_unlock h _
  · refine (still_store _ _).thenExcept (fun _ => safe_unlock h _) fun _ => ?_
    exact Returns.spares (returns_bind fun _ => returns_bind fun _ => returns_bind fun _ =>
      not_fails _)

theorem safe_storeWorkspaceTicket (envelope : Bytes) : Safe (storeWorkspaceTicket id me envelope) := by
  refine (still_lockLocalSession id).thenExcept (fun _ => trivial) fun ⟨h, s⟩ => ?_
  exact (still_store _ _).thenExcept (fun _ => safe_unlock h _) fun _ => safe_stored _ _ _

theorem safe_leave (peer : PeerId) : Safe (leave id me peer) := by
  refine still_lookup.thenOption trivial fun h => ?_
  refine (still_lock h).andThen fun s => ?_
  split
  · exact safe_unlock h _
  refine (still_store _ _).thenExcept (fun _ => safe_unlock h _) fun _ => ?_
  apply Returns.spares
  refine returns_bind fun _ => returns_bind fun _ => returns_bind fun _ => ?_
  split
  · exact returns_bind fun _ => returns_bind fun _ => not_fails _
  · exact not_fails _

theorem safe_advanceHostEpochWatermark (hostEpoch : UInt64) :
    Safe (advanceHostEpochWatermark me hostEpoch) := by
  refine still_lookup.thenOption trivial fun h => ?_
  refine (still_lock h).andThen fun s => ?_
  split
  · exact safe_unlock h _
  · exact (still_store _ _).thenExcept (fun _ => safe_unlock h _) fun _ => safe_stored _ _ _

theorem safe_hostResume (call : HostCall) (h : Handle) : Safe (hostResume d id me call h) := by
  refine (still_lock h).andThen fun s => ?_
  split
  · exact safe_unlock h _
  · refine (still_store _ _).thenExcept (fun _ => safe_unlock h _) fun _ => ?_
    -- the ledger is written and memory is not: a second failure still touches nothing
    refine (still_store _ _).thenExcept (fun _ => safe_unlock h _) fun _ => ?_
    exact Returns.spares (returns_bind fun _ => returns_bind fun _ => returns_bind fun _ =>
      not_fails _)

theorem safe_hostCreate (call : HostCall) : Safe (hostCreate d id call) := by
  refine (still_store _ _).thenExcept (fun _ => still_releaseMap.andThen fun _ => trivial)
    fun floor => ?_
  exact (still_store _ _).thenExcept (fun _ => still_releaseMap.andThen fun _ => trivial)
    fun _ => safe_stored _ _ _

theorem safe_host (call : HostCall) (passes : ℕ) : Safe (host d id me call passes) := by
  induction passes with
  | zero => exact (each_waitFor fun _ s => untouched_refl s : Still _).spares
  | succ passes ih =>
    refine still_lookup.thenOption ?_ fun h => safe_hostResume d id call h
    exact still_writeMap.thenOption (safe_hostCreate d id call)
      fun _ => still_releaseMap.andThen fun _ => ih

theorem safe_sendLocal (h : Handle) (draft : Draft) : Safe (sendLocal d me h draft) := by
  refine (still_lock h).andThen fun s => still_clock.andThen fun nowMs => ?_
  split
  · exact safe_unlock h _
  refine (still_store _ _).thenExcept (fun _ => safe_unlock h _) fun _ => ?_
  apply Returns.spares
  refine returns_bind fun _ => returns_bind fun _ => returns_bind fun _ => ?_
  split
  · exact not_fails _
  · exact returns_bind fun _ => not_fails _

theorem safe_send (draft : Draft) : Safe (send d id me draft) := by
  unfold send
  split
  · trivial
  refine still_lookup.thenOption trivial fun h => ?_
  refine (still_lock h).andThen fun s => (still_unlock h).andThen fun _ => ?_
  split
  · trivial
  · split
    · refine Each.andThen (each_waitFor fun _ s => untouched_refl s) fun ack => ?_
      split <;> trivial
    · exact safe_sendLocal d h draft

theorem safe_ensureMember (peer : PeerInfo) (claim : Option CapClaim) :
    Safe (ensureMember d id me peer claim) := by
  refine still_clock.andThen fun nowMs => ?_
  split
  · trivial
  refine still_lookup.thenOption trivial fun h => ?_
  refine (still_lock h).andThen fun s => ?_
  split
  · exact safe_unlock h _
  split
  · exact safe_unlock h _
  refine (still_store _ _).thenExcept (fun _ => safe_unlock h _) fun _ => ?_
  -- neither the note of the ticket's use nor the grant can fail the admission any more
  apply Returns.spares
  refine returns_bind fun _ => returns_bind fun _ => returns_bind fun _ =>
    returns_bind fun _ => ?_
  split
  · exact returns_bind fun _ => not_fails _
  · exact not_fails _

abbrev UntouchedWorld (w w' : World × Post) : Prop := Untouched w.1 w'.1

theorem returns_delivery (peer : PeerInfo) (a : Outcome) (ha : ¬ Fails a) :
    Returns (fun b : Outcome => ¬ Fails b)
      (match a with
        | .error e => (.ret (.error e) : Fiber (World × Post) Env Label Outcome)
        | .ok _ => (Fiber.once .lookup fun _ w => (w.2.snapshots me, w)).bind fun snapshot =>
          match snapshot with
          | some (.Local, some envelope) =>
            (deliverWorkspaceTicketTo d me peer.id envelope).bind fun _ => .ret (.ok .done)
          | _ => .ret (.ok .done)) := by
  cases a with
  | error e => exact absurd ⟨e, rfl⟩ ha
  | ok _ =>
    refine returns_bind fun snapshot => ?_
    split
    · exact returns_bind fun _ => not_fails _
    · exact not_fails _

theorem spares_admitAndDeliver (peer : PeerInfo) (claim : Option CapClaim) :
    (admitAndDeliver d id me peer claim).Spares UntouchedWorld Fails := by
  refine (safe_ensureMember d id peer claim).observe.bind (fun a => ?_) (returns_delivery d peer)
  cases a with
  | error e => trivial
  | ok r => exact (returns_delivery d peer (.ok r) (not_fails r)).spares

theorem spares_publishWorkspaceTicket (envelope : Bytes) (order : List PeerId) :
    (publishWorkspaceTicket d id me envelope order).Spares UntouchedWorld Fails := by
  refine (safe_storeWorkspaceTicket id envelope).observe.bind (fun a => ?_) fun a ha => ?_
  · cases a with
    | error e => trivial
    | ok members => exact Returns.spares (returns_bind fun _ => not_fails _)
  · cases a with
    | error e => exact absurd ⟨e, rfl⟩ ha
    | ok members => exact returns_bind fun _ => not_fails _

theorem fails_of_answer (o : Outcome) (h : Fails (Outcome.answer o)) : Fails o := by
  cases o with
  | error e => exact ⟨e, rfl⟩
  | ok r => exact absurd h (not_fails r)

/-- The calls that write to the store before they change a session in memory. -/
def Storing : PostCall → Prop
  | .hosted (.plain (.host _ _)) => True
  | .hosted (.plain (.leave _)) => True
  | .hosted (.plain (.advanceHostEpochWatermark _)) => True
  | .hosted (.plain (.send _)) => True
  | .hosted (.plain _) => False
  | .task _ => False
  | _ => True

variable {d id} in
theorem spares_storing {o : PostCall} (ho : Storing o) :
    (o.body d id me).Spares UntouchedWorld Fails := by
  have hanswer : ∀ {t : Fiber (World × Post) Env Label Outcome}, t.Spares UntouchedWorld Fails →
      (t.bind fun o => .ret (Outcome.answer o)).Spares UntouchedWorld Fails := fun ht =>
    (ht.mono fails_of_answer).map
  have hplain : ∀ {t : Async Outcome}, Safe t →
      (t.bind fun o => .ret (Outcome.answer o)).beside.Spares UntouchedWorld Fails := fun ht =>
    (ht.mono fails_of_answer).map.observe
  cases o with
  | hosted call =>
    cases call with
    | removeMember peer => exact (safe_removeMember id peer).observe
    | issueTicket grantedCap expiryMs mint =>
      exact (safe_issueTicket d id grantedCap expiryMs mint).observe
    | revokeTicket ticket => exact (safe_revokeTicket id ticket).observe
    | plain call =>
      cases call with
      | host call passes => exact hplain (safe_host d id call passes)
      | leave peer => exact hplain (safe_leave id peer)
      | advanceHostEpochWatermark hostEpoch => exact hplain (safe_advanceHostEpochWatermark hostEpoch)
      | send draft => exact hplain (safe_send d id draft)
      | _ => exact ho.elim
  | admission peer claim => exact hanswer (spares_admitAndDeliver d id peer claim)
  | publish envelope order => exact hanswer (spares_publishWorkspaceTicket d id envelope order)
  | task k => exact ho.elim

theorem spares_body (i : ℕ) (o : PostCall) :
    (o.body d id i).Spares UntouchedWorld fun a => Storing o ∧ Fails a := by
  by_cases ho : Storing o
  · exact (spares_storing ho).mono fun _ h => h.2
  · exact (Fiber.returns_of_forall _ fun a ha => ho ha.1).spares

abbrev runFrom (w : World × Post) (ms : List (Move PostCall Env)) :
    Pool PostCall (World × Post) Env Label Answer :=
  Pool.run (PostCall.body d id) ⟨w, []⟩ ms

/-- A storing call that returns an error touched no map, session or event channel. -/
theorem failed_untouched (w : World × Post) (before : List (Move PostCall Env)) :
    (∀ i e after o err,
      (runFrom d id w (before ++ .step i e :: after)).callAt i = some o → Storing o →
      (runFrom d id w (before ++ .step i e :: after)).result i = some (.error err) →
      Untouched (runFrom d id w before).world.1 (runFrom d id w (before ++ [.step i e])).world.1) ∧
    ∀ o (es : List Env) err, Storing o →
      (runFrom d id w (before ++ .call o ::
        es.map (.step (runFrom d id w before).calls.length))).result
          (runFrom d id w before).calls.length = some (.error err) →
      Untouched (runFrom d id w before).world.1 (runFrom d id w (before ++ .call o ::
        es.map (.step (runFrom d id w before).calls.length))).world.1 := by
  have hsparing : (runFrom d id w before).Sparing UntouchedWorld fun o a => Storing o ∧ Fails a :=
    Pool.sparing_run (spares_body d id) before fun _ _ _ => by simp
  have hsplit : ∀ m after, runFrom d id w (before ++ m :: after) =
      ((runFrom d id w before).move (PostCall.body d id) m).run (PostCall.body d id) after :=
    fun _ _ => List.foldl_append
  refine ⟨fun i e after o err hcall ho hresult => ?_, fun o es err ho hresult => ?_⟩
  · rw [hsplit] at hcall hresult
    rw [hsplit]
    exact hsparing.step (fun w => untouched_refl w.1) hcall hresult ⟨ho, err, rfl⟩
  · have hcall : ((runFrom d id w before).move (PostCall.body d id) (.call o)).calls[
        (runFrom d id w before).calls.length]? = some (o, o.body d id _) :=
      List.getElem?_concat_length
    rw [hsplit] at hresult ⊢
    -- the arrival itself changes nothing
    exact (hsparing.move (spares_body d id) (.call o)).alone (spares_body d id)
      (fun w => untouched_refl w.1) (fun _ _ _ h h' => h.trans h') (Pool.callAt_run _ hcall) hresult
      ⟨ho, err, rfl⟩

end Calls

namespace Sample

open Artel.Sample

def faulty : Env := ⟨0, some (.notFound, noDisk), none, .error .sendTimeout⟩

def start : World × Post := (World.empty blank noDisk, Post.start (World.empty blank noDisk))

def hosted : List (Move PostCall Env) :=
  .call (.hosted (.plain (.host call 1))) :: List.replicate 9 (.step 0 calm)

/-- A resume whose ledger is written and whose epoch is not. -/
def resumed : List Env := [calm, calm, calm, faulty, calm]

theorem failed_untouched_resumed :
    (runFrom daemon session start (hosted ++ .call (.hosted (.plain (.host call 1))) ::
        resumed.map (.step 1))).result 1 = some (.error (.session (.storage .notFound))) ∧
      Untouched (runFrom daemon session start hosted).world.1
        (runFrom daemon session start (hosted ++ .call (.hosted (.plain (.host call 1))) ::
          resumed.map (.step 1))).world.1 := by
  have hlength : (runFrom daemon session start hosted).calls.length = 1 := by decide +kernel
  have hresult : (runFrom daemon session start (hosted ++ .call (.hosted (.plain (.host call 1))) ::
      resumed.map (.step 1))).result 1 = some (.error (.session (.storage .notFound))) := by
    decide +kernel
  have huntouched := (failed_untouched daemon session start hosted).2
    (.hosted (.plain (.host call 1))) resumed (.session (.storage .notFound)) trivial
  rw [hlength] at huntouched
  exact ⟨hresult, huntouched hresult⟩

end Sample

end Artel.Failing
