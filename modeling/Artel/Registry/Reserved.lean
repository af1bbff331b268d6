import Artel.Registry.ReservedCalls

namespace Artel.Reserved

open Registry

variable {a : String}

inductive DaemonAction
  | ticket
  | upgrade
  | downgrade
  | rotate
  deriving DecidableEq

def DaemonAction.text : DaemonAction → String
  | .ticket => TICKET_ACTION
  | .upgrade => UPGRADE_ACTION
  | .downgrade => DOWNGRADE_ACTION
  | .rotate => ROTATE_ACTION

/-- No log, subscriber or replay has a sequenced message with the action. -/
structure Withheld (a : String) (p : Pool Call World Env Label Outcome) : Prop where
  log : ∀ h < p.world.nextHandle, (p.world.cells h).session.kind = .Local →
    ∀ m ∈ (p.world.cells h).session.log, ¬ (m.kind = .system ∧ m.action = a)
  live : ∀ h < p.world.nextHandle, ∀ m, .message m ∈ (p.world.cells h).feed → Injected a m
  replay : ∀ i o, p.result i = some o → Replays a o

theorem withheld_of_reserved (ha : reservedSystemAction a ≠ none) {ed : Ed25519} (d : Daemon ed)
    (id : SessionId) (blank : Session) (disk : Store.Disk) (ms : List (Move Call Env)) :
    Withheld a (runCalls d id (.empty blank disk) ms) := by
  have hinit : Inv a (.empty blank disk) fun _ => .idle := by
    constructor <;> simp [World.empty]
  have hfree : CallsMeet d id (.empty blank disk) (fun _ => True) Free ms :=
    .of_forall (Pool.meets_of_forall (fun _ => trivial) fun _ _ _ => trivial) _ ms
  have htracked := Pool.tracked_run (Q := fun _ r _ => Replays a r)
    (fun i o _ => follows_body d id ha o) (Pool.tracked_nil hinit) hfree
  obtain ⟨V, hI, hresult⟩ := htracked.of_result
  refine ⟨hI.log, hI.feed, fun i o ho => ?_⟩
  obtain ⟨_, -, hreplays⟩ := hresult i o ho
  exact hreplays

section Sample

open Sample

/-- The host sends a system message with the action to its own session. -/
def hostSends (x : DaemonAction) : List (Move Call Env) :=
  [.call (.host call 1), .call (.send ⟨info 0, .system, x.text, [], .Local⟩)] ++
    steps 0 9 calm ++ steps 1 10 calm

/-- Of the four actions, exactly the reserved ones are withheld in every run. -/
theorem withheld_iff (x : DaemonAction) :
    (∀ (ed : Ed25519) (d : Daemon ed) (id : SessionId) (blank : Session) (disk : Store.Disk)
      (ms : List (Move Call Env)), Withheld x.text (runCalls d id (.empty blank disk) ms)) ↔
      x = .ticket ∨ x = .upgrade := by
  constructor
  · intro h
    have hrun := (h .checksum daemon session blank noDisk (hostSends x)).log 0
    by_contra hne
    have hfound :
        0 < (runCalls daemon session (.empty blank noDisk) (hostSends x)).world.nextHandle ∧
        ((runCalls daemon session (.empty blank noDisk) (hostSends x)).world.cells 0).session.kind =
          .Local ∧
        ∃ m ∈ ((runCalls daemon session (.empty blank noDisk) (hostSends x)).world.cells
          0).session.log, m.kind = .system ∧ m.action = x.text := by
      cases x with
      | ticket => exact absurd (.inl rfl) hne
      | upgrade => exact absurd (.inr rfl) hne
      | downgrade => decide +kernel
      | rotate => decide +kernel
    obtain ⟨hlt, hlocal, m, hm, hbad⟩ := hfound
    exact hrun hlt hlocal m hm hbad
  · rintro (rfl | rfl) ed d id blank disk ms
    · exact withheld_of_reserved (by decide) d id blank disk ms
    · exact withheld_of_reserved (by decide) d id blank disk ms

/-- A member other than the host asks for a `workspace.downgrade`, signed with its own key. -/
def memberDowngrade : Draft :=
  let draft : Draft := ⟨info 2, .system, DOWNGRADE_ACTION, [7], .Local⟩
  { draft with authoring := .Remote 5 (Ed25519.checksum.sign (peer 2) (draft.scope session 5)) }

/-- The host admits the member, sequences what it sends, and serves a subscriber. -/
def hostPool : Pool Call World Env Label Outcome :=
  runCalls daemon session (.empty blank noDisk)
    ([.call (.host call 1), .call (.ensureMember (info 2) none), .call (.send memberDowngrade),
      .call (.subscribe none)] ++
      steps 0 9 calm ++ steps 1 16 calm ++ steps 2 10 calm ++ steps 3 4 calm)

/-- Another daemon joins that session and takes each frame that the host broadcast. -/
def mirrorPool : Pool Call World Env Label Outcome :=
  runCalls (⟨peer 3, some (peer 3)⟩ : Daemon .checksum) session (.empty blank noDisk)
    ([.call (.join (mintTicket daemon session call 0) (info 3))] ++ steps 0 19 calm ++
      hostPool.world.published.map (fun m => .call (.inbound 0 m)) ++ steps 1 6 calm)

/-- The member's message is in the host's log and surfaced by the mirror. -/
theorem member_downgrade_surfaced : ∃ m ∈ hostPool.world.published,
    m.kind = .system ∧ m.action = DOWNGRADE_ACTION ∧ m.peer = info 2 ∧
      m ∈ (hostPool.world.cells 0).session.log ∧
      .message m ∈ (hostPool.world.cells 0).feed ∧
      (hostPool.result 3).any (fun o => m ∈ subscribedReplay o) ∧
      .message m ∈ (mirrorPool.world.cells 0).feed := by
  decide +kernel

end Sample

end Artel.Reserved
