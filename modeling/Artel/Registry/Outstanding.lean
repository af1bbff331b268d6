import Artel.Registry.SequencerOutline

namespace Artel.Sequencer

variable {ed : Ed25519} (d : Daemon ed)

def NoneOwed (peer : PeerId) (owed : List Owed) : Prop :=
  ∀ x ∈ owed, x.peer = peer → x.cap ≠ .readWrite

structure Faithful (s : Session) (w : Writing) : Prop where
  prepared : Prepared ed s w.draft w.message
  action : ∀ host peer, actionOn host peer w.message = w.draft.actionOn host peer
  grant : ∀ peer cap, w.grant = some (peer, cap) → w.draft = grantDraft d peer cap

variable {d} {peer : PeerId}

theorem faithful_of_prepareSend {s : Session} {nowMs : UInt64} {draft : Draft} {m : SessionMessage}
    {A : Draft → Prop} {owed : List Owed} {grant : Option (PeerId × Capability)}
    (hprep : prepareSend d s nowMs draft = .ok m) (hspeaks : Speaks d A owed draft grant) :
    Faithful d s ⟨draft, grant, m⟩ := by
  refine ⟨prepareSend_ok d hprep, actionOn_of_prepareSend hprep, ?_⟩
  intro p cap hgrant
  cases hspeaks with
  | client hdraft => cases hgrant
  | grant hx =>
    cases hgrant
    rfl

theorem Speaks.grant_ne {A : Draft → Prop} {owed : List Owed} {draft : Draft}
    {grant : Option (PeerId × Capability)} (h : Speaks d A owed draft grant)
    (hnone : NoneOwed peer owed) : grant ≠ some (peer, .readWrite) := by
  cases h with
  | client hdraft => simp
  | grant hx =>
    intro heq
    obtain ⟨hpeer, hcap⟩ := Prod.mk.inj (Option.some.inj heq)
    exact hnone _ hx hpeer hcap

theorem actionOn_grant {s : Session} {w : Writing} (h : Faithful d s w)
    {g : PeerId × Capability} (hgrant : w.grant = some g) {p : PeerId}
    (hact : actionOn d.peerId p w.message = some (.grant p .readWrite)) :
    w.grant = some (p, .readWrite) := by
  rw [h.action, h.grant g.1 g.2 hgrant] at hact
  simp only [Draft.actionOn, grantDraft, CapabilityAction.decode_encode, and_self, if_true,
    Option.filter_eq_some_iff, Option.some.injEq, CapabilityAction.grant.injEq] at hact
  obtain ⟨⟨hpeer, hcap⟩, -⟩ := hact
  rw [hgrant, ← hpeer, ← hcap]

theorem write_facts (t : Trace) (draft : Draft) (grant : Option (PeerId × Capability)) :
    (t.write draft grant).facts = t.facts ∨
      ∃ draft', (t.write draft grant).facts = t.facts ++ [.written draft'] := by
  cases grant with
  | none => exact .inr ⟨draft, rfl⟩
  | some g => exact .inl rfl

theorem write_owed (t : Trace) (draft : Draft) (grant : Option (PeerId × Capability)) :
    (t.write draft grant).owed = t.owed := by
  cases grant <;> rfl

theorem NoneOwed.advance {t : Trace} (h : NoneOwed peer t.owed) (i : ℕ)
    (next : Stage → Option Stage) : NoneOwed peer (t.advance i next).owed := by
  intro x hx
  obtain ⟨y, hy, hyx⟩ := List.mem_filterMap.mp hx
  split at hyx
  · obtain ⟨stage, -, rfl⟩ := Option.map_eq_some_iff.mp hyx
    exact h y hy
  · obtain rfl := Option.some.inj hyx
    exact h _ hy

end Artel.Sequencer
