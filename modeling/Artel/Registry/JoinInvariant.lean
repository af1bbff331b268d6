import Artel.Registry.Coarse

namespace Artel.JoinOutcome

open Registry Function

/-- How far a join is: it has a claim to finish, or a mirror it vouches for. -/
inductive View
  | idle
  | claimant (h : Handle)
  | failed (h : Handle)
  | rolledBack (h : Handle)
  | succeeded (h : Handle)
  | joined (h : Handle)

def View.claim : View → Option Handle
  | .claimant h => some h
  | .failed h => some h
  | .rolledBack h => some h
  | .succeeded h => some h
  | _ => none

def View.vouches : View → Option Handle
  | .succeeded h => some h
  | .joined h => some h
  | _ => none

structure Inv (s : World) (V : ℕ → View) : Prop where
  posted : ∀ h, s.watches h = some true → (h, true) ∈ s.joins
  single : ∀ h, (h, true) ∈ s.joins → (h, false) ∉ s.joins
  bounded : ∀ h b, (h, b) ∈ s.joins → h < s.nextHandle
  entry : ∀ h, s.sessions = some h → (h, true) ∈ s.joins ∨ s.pendingRemoteJoins = some h
  pending : ∀ h, s.pendingRemoteJoins = some h → s.sessions = some h ∨ s.sessions = none
  owner : ∀ i h, (V i).claim = some h → s.pendingRemoteJoins = some h ∧ h < s.nextHandle
  unique : ∀ i h, (V i).claim = some h → ∀ j, (V j).claim = some h → i = j
  claimant : ∀ i h, V i = .claimant h → ∀ b, (h, b) ∉ s.joins
  vouched : ∀ i h, (V i).vouches = some h → (h, true) ∈ s.joins
  rolledBack : ∀ i h, V i = .rolledBack h → s.sessions = none

/-- Lookups and claims of joins come when no other claim is in flight. -/
def Orderly : Label → Env → World → Prop
  | .joinLookup, _, s => s.sessions ≠ none → s.pendingRemoteJoins = none
  | .adopt h, _, s => s.sessions = some h
  | .claim, _, s => s.sessions = none → s.pendingRemoteJoins = none
  | _, _, _ => True

structure Same (s' s : World) : Prop where
  sessions : s'.sessions = s.sessions
  pendingRemoteJoins : s'.pendingRemoteJoins = s.pendingRemoteJoins
  watches : s'.watches = s.watches
  joins : s'.joins = s.joins
  nextHandle : s'.nextHandle = s.nextHandle

variable {s : World} {V : ℕ → View}

theorem Inv.of_same {s' : World} (h : Inv s V) (hs : Same s' s) : Inv s' V := by
  obtain ⟨h1, h2, h3, h4, h5⟩ := hs
  constructor
  · rw [h3, h4]; exact h.posted
  · rw [h4]; exact h.single
  · rw [h4, h5]; exact h.bounded
  · rw [h1, h2, h4]; exact h.entry
  · rw [h1, h2]; exact h.pending
  · rw [h2, h5]; exact h.owner
  · exact h.unique
  · rw [h4]; exact h.claimant
  · rw [h4]; exact h.vouched
  · rw [h1]; exact h.rolledBack

theorem coarse_inv : Coarse Inv where
  modify _ _ _ _ hI _ := hI.of_same ⟨rfl, rfl, rfl, rfl, rfl⟩
  disk _ _ _ hI := hI.of_same ⟨rfl, rfl, rfl, rfl, rfl⟩
  forwarders _ _ _ hI := hI.of_same ⟨rfl, rfl, rfl, rfl, rfl⟩

theorem slotBlind_inv : SlotBlind Inv where
  slot _ _ _ _ hI := hI.of_same ⟨rfl, rfl, rfl, rfl, rfl⟩
  erase _ _ _ hI := hI.of_same ⟨rfl, rfl, rfl, rfl, rfl⟩

section

variable (hI : Inv s V)
include hI

theorem Inv.setView (i : ℕ) (w : View)
    (hclaim : ∀ h, w.claim = some h → (V i).claim = some h) (hfresh : ∀ h, w ≠ .claimant h)
    (hvouch : ∀ h, w.vouches = some h → (h, true) ∈ s.joins)
    (hrolled : ∀ h, w = .rolledBack h → s.sessions = none) : Inv s (update V i w) := by
  have hclaims : ∀ j h, (update V i w j).claim = some h → (V j).claim = some h := by
    intro j h hj
    by_cases hji : j = i
    · subst hji
      rw [update_self] at hj
      exact hclaim h hj
    · rwa [update_of_ne hji] at hj
  refine { hI with owner := ?_, unique := ?_, claimant := ?_, vouched := ?_, rolledBack := ?_ }
  · exact fun j h hj => hI.owner j h (hclaims j h hj)
  · exact fun j h hj k hk => hI.unique j h (hclaims j h hj) k (hclaims k h hk)
  · rw [forall_update_iff V fun j v => ∀ h, v = .claimant h → ∀ b, (h, b) ∉ s.joins]
    exact ⟨fun h hw => absurd hw (hfresh h), fun j _ => hI.claimant j⟩
  · rw [forall_update_iff V fun j v => ∀ h, v.vouches = some h → (h, true) ∈ s.joins]
    exact ⟨hvouch, fun j _ => hI.vouched j⟩
  · rw [forall_update_iff V fun j v => ∀ h, v = .rolledBack h → s.sessions = none]
    exact ⟨hrolled, fun j _ => hI.rolledBack j⟩

theorem Inv.addJoin {h : Handle} (ok : Bool)
    (hlt : h < s.nextHandle) (hnew : ∀ b, (h, b) ∉ s.joins) (hno : ∀ i, V i ≠ .claimant h) :
    Inv { s with joins := s.joins ++ [(h, ok)] } V := by
  have hmem : ∀ x, x ∈ s.joins ++ [(h, ok)] ↔ x ∈ s.joins ∨ x = (h, ok) := by simp
  refine { posted := ?_, single := ?_, bounded := ?_, entry := ?_, pending := hI.pending,
           owner := hI.owner, unique := hI.unique, claimant := ?_, vouched := ?_,
           rolledBack := hI.rolledBack }
  · exact fun k hk => (hmem _).mpr (.inl (hI.posted k hk))
  · intro k hk hk'
    rw [hmem] at hk hk'
    rcases hk with hk | hk <;> rcases hk' with hk' | hk'
    · exact hI.single k hk hk'
    · cases hk'
      exact hnew _ hk
    · cases hk
      exact hnew _ hk'
    · cases hk
      cases hk'
  · intro k b hk
    rcases (hmem _).mp hk with hk | hk
    · exact hI.bounded k b hk
    · cases hk
      exact hlt
  · intro k hk
    rcases hI.entry k hk with hk | hk
    · exact .inl ((hmem _).mpr (.inl hk))
    · exact .inr hk
  · intro i k hi b hk
    rcases (hmem _).mp hk with hk | hk
    · exact hI.claimant i k hi b hk
    · cases hk
      exact hno i hi
  · exact fun i k hi => (hmem _).mpr (.inl (hI.vouched i k hi))

theorem Inv.clearPending
    (hno : ∀ i, (V i).claim = none)
    (hentry : ∀ h, s.sessions = some h → (h, true) ∈ s.joins) :
    Inv { s with pendingRemoteJoins := none } V := by
  refine { hI with entry := ?_, pending := ?_, owner := ?_ }
  · exact fun h hh => .inl (hentry h hh)
  · intro h hh
    cases hh
  · intro i h hi
    rw [hno i] at hi
    cases hi

theorem Inv.finish {me : ℕ} {h : Handle} {w : View}
    (hv : (V me).claim = some h) (hw : w.claim = none)
    (hvouch : ∀ k, w.vouches = some k → (k, true) ∈ s.joins)
    (hentry : ∀ k, s.sessions = some k → (k, true) ∈ s.joins) :
    Inv { s with pendingRemoteJoins := none } (update V me w) := by
  have hset : Inv s (update V me w) := by
    apply hI.setView
    · intro k hk
      rw [hw] at hk
      cases hk
    · intro k hk
      rw [hk] at hw
      cases hw
    · exact hvouch
    · intro k hk
      rw [hk] at hw
      cases hw
  apply hset.clearPending
  · intro i
    by_cases him : i = me
    · rw [him, update_self]
      exact hw
    rw [update_of_ne him]
    by_contra hne
    obtain ⟨k, hk⟩ := Option.ne_none_iff_exists'.mp hne
    -- there is one marker, so another claim would be for the same mirror
    have hkh : some k = some h := by rw [← (hI.owner i k hk).1, (hI.owner me h hv).1]
    cases hkh
    exact him (hI.unique i h hk me hv)
  · exact hentry

theorem Inv.vouch {me : ℕ} {h : Handle}
    (hh : (h, true) ∈ s.joins) : Inv s (update V me (.joined h)) := by
  apply hI.setView
  · exact fun k hk => by cases hk
  · exact fun k hk => by cases hk
  · intro k hk
    cases hk
    exact hh
  · exact fun k hk => by cases hk

theorem Inv.claim (i : ℕ) (session : Session)
    (hpending : s.pendingRemoteJoins = none) :
    Inv { s.insert session with
          pendingRemoteJoins := some s.nextHandle
          watches := update s.watches s.nextHandle none }
      (update V i (.claimant s.nextHandle)) := by
  -- without a marker no call has a claim left
  have hnone : ∀ j h, (V j).claim ≠ some h := by
    intro j h hj
    have howner := (hI.owner j h hj).1
    rw [hpending] at howner
    cases howner
  have hrolled : ∀ j h, V j ≠ .rolledBack h := by
    intro j h hj
    apply hnone j h
    rw [hj]
    rfl
  have hfresh : ∀ b, (s.nextHandle, b) ∉ s.joins := by
    intro b hb
    exact lt_irrefl _ (hI.bounded _ b hb)
  constructor
  · intro h hh
    simp only [update_apply] at hh
    split at hh
    · cases hh
    · exact hI.posted h hh
  · exact hI.single
  · intro h b hh
    exact Nat.lt_succ_of_lt (hI.bounded h b hh)
  · intro h hh
    exact .inr hh
  · intro h hh
    exact .inl hh
  · apply (forall_update_iff V fun _ v => ∀ h, v.claim = some h →
      some s.nextHandle = some h ∧ h < s.nextHandle + 1).mpr
    refine ⟨fun h hh => ?_, fun j _ h hj => absurd hj (hnone j h)⟩
    cases hh
    exact ⟨rfl, Nat.lt_succ_self _⟩
  · intro j h hj k hk
    have hji : j = i := by
      by_contra hne
      rw [update_of_ne hne] at hj
      exact hnone j h hj
    have hki : k = i := by
      by_contra hne
      rw [update_of_ne hne] at hk
      exact hnone k h hk
    rw [hji, hki]
  · apply (forall_update_iff V fun _ v => ∀ h, v = .claimant h →
      ∀ b, (h, b) ∉ s.joins).mpr
    refine ⟨fun h hh => ?_, fun j _ => hI.claimant j⟩
    cases hh
    exact hfresh
  · apply (forall_update_iff V fun _ v => ∀ h, v.vouches = some h →
      (h, true) ∈ s.joins).mpr
    refine ⟨fun h hh => ?_, fun j _ => hI.vouched j⟩
    cases hh
  · apply (forall_update_iff V fun _ v => ∀ h, v = .rolledBack h →
      some s.nextHandle = none).mpr
    refine ⟨fun h hh => ?_, fun j _ h hj => absurd hj (hrolled j h)⟩
    cases hh

end

end Artel.JoinOutcome
