import Artel.Registry.Deliveries

namespace Artel.Delivering

open Store Registry Function List

section Record

def publishedOn (h : Handle) : PostFact → Option Bytes
  | .published k envelope => if k = h then some envelope else none
  | .delivered _ _ _ => none

def lastPublished (h : Handle) (facts : List PostFact) : Option Bytes :=
  (facts.filterMap (publishedOn h)).getLast?

def handleOf : PostFact → Handle
  | .published h _ => h
  | .delivered h _ _ => h

/-- The envelope was published last, and nothing was delivered to the peer since. -/
def CheckedIn (facts : List PostFact) (h : Handle) (target : PeerId) (envelope : Bytes) : Prop :=
  ∃ before after, facts = before ++ after ∧ lastPublished h before = some envelope ∧
    ∀ other, .delivered h target other ∉ after

/-- Sessions follow one another, and each delivery was checked. -/
structure Orderly (facts : List PostFact) : Prop where
  ascending : facts.Pairwise fun f g => handleOf f ≤ handleOf g
  checked : ∀ before after h target envelope, facts = before ++ .delivered h target envelope :: after →
    CheckedIn before h target envelope

theorem lastPublished_append (h : Handle) (facts : List PostFact) (f : PostFact) :
    lastPublished h (facts ++ [f]) = (publishedOn h f).or (lastPublished h facts) := by
  unfold lastPublished
  cases hf : publishedOn h f with
  | none => simp [hf]
  | some envelope => simp [hf]

variable {facts : List PostFact}

theorem lastPublished_eq_none {h : Handle}
    (hfacts : ∀ f ∈ facts, handleOf f ≠ h) : lastPublished h facts = none := by
  have hnil : facts.filterMap (publishedOn h) = [] := by
    rw [filterMap_eq_nil_iff]
    intro f hf
    cases f with
    | published k envelope => exact if_neg (hfacts _ hf)
    | delivered k target envelope => rfl
  rw [lastPublished, hnil]
  rfl

theorem exists_of_lastPublished {h : Handle} {envelope : Bytes}
    (hlast : lastPublished h facts = some envelope) :
    ∃ before after, facts = before ++ .published h envelope :: after ∧
      ∀ other, .published h other ∉ after := by
  induction facts using List.reverseRecOn with
  | nil => cases hlast
  | append_singleton facts f ih =>
    rw [lastPublished_append] at hlast
    cases hf : publishedOn h f with
    | some other =>
      rw [hf, Option.some_or, Option.some.injEq] at hlast
      subst hlast
      cases f with
      | delivered k target envelope => cases hf
      | published k envelope =>
        obtain ⟨rfl, rfl⟩ : k = h ∧ envelope = other := by
          simpa [publishedOn] using hf
        exact ⟨facts, [], rfl, by simp⟩
    | none =>
      rw [hf, Option.none_or] at hlast
      obtain ⟨before, after, rfl, hafter⟩ := ih hlast
      refine ⟨before, after ++ [f], by simp, fun other hmem => ?_⟩
      obtain hold | hnew := mem_append.mp hmem
      · exact hafter other hold
      · rw [mem_singleton] at hnew
        subst hnew
        simp [publishedOn] at hf

theorem CheckedIn.append {h : Handle} {target : PeerId} {envelope : Bytes}
    (hc : CheckedIn facts h target envelope) {f : PostFact}
    (hf : ∀ other, f ≠ .delivered h target other) : CheckedIn (facts ++ [f]) h target envelope := by
  obtain ⟨before, after, rfl, hlast, hafter⟩ := hc
  refine ⟨before, after ++ [f], by simp, hlast, fun other hmem => ?_⟩
  obtain hold | hnew := mem_append.mp hmem
  · exact hafter other hold
  · exact hf other (mem_singleton.mp hnew).symm

theorem Orderly.append (ho : Orderly facts) {f : PostFact}
    (hle : ∀ g ∈ facts, handleOf g ≤ handleOf f)
    (hf : ∀ h target envelope, f = .delivered h target envelope →
      CheckedIn facts h target envelope) : Orderly (facts ++ [f]) := by
  refine ⟨?_, fun before after h target envelope heq => ?_⟩
  · rw [pairwise_append]
    refine ⟨ho.ascending, pairwise_singleton _ _, fun g hg k hk => ?_⟩
    rw [mem_singleton.mp hk]
    exact hle g hg
  · obtain rfl | ⟨rest, last, rfl⟩ := eq_nil_or_concat' after
    · obtain ⟨rfl, hlast⟩ := append_inj' heq rfl
      exact hf h target envelope (by simpa using hlast)
    · have heq' : facts ++ [f] = (before ++ .delivered h target envelope :: rest) ++ [last] := by
        simpa using heq
      obtain ⟨rfl, -⟩ := append_inj' heq' rfl
      exact ho.checked before rest h target envelope rfl

theorem suffix_of_notMem {a b c rest : List PostFact} {f : PostFact} (heq : a ++ b = c ++ f :: rest)
    (hf : f ∉ a) : f :: rest <:+ b := by
  obtain ⟨d, rfl, hb⟩ | ⟨d, rfl, hb⟩ := append_eq_append_iff.mp heq
  · exact ⟨d, hb.symm⟩
  · cases d with
    | nil => exact ⟨[], hb⟩
    | cons g d =>
      obtain ⟨rfl, -⟩ := List.cons.inj hb
      exact absurd (by simp) hf

theorem Orderly.republished {before mid x y z : List PostFact} {h₁ h₂ h₃ h₄ : Handle}
    {old new : Bytes} {target : PeerId}
    (ho : Orderly (before ++ .published h₁ old :: (mid ++ .published h₂ new ::
      (x ++ .delivered h₃ target new :: (y ++ .delivered h₄ target old :: z))))) (hne : old ≠ new) :
    ∃ h, .published h old ∈ mid ++ x ++ y := by
  by_contra hold
  -- the session of the late delivery is that of the old envelope, so all four facts are on it
  obtain ⟨earlier, later, hsplit, hlast, hnone⟩ := ho.checked (before ++ .published h₁ old ::
    (mid ++ .published h₂ new :: (x ++ .delivered h₃ target new :: y))) z h₄ target old (by simp)
  obtain ⟨u, w, rfl, hw⟩ := exists_of_lastPublished hlast
  have hrest : .published h₄ old ∉ mid ++ .published h₂ new ::
      (x ++ .delivered h₃ target new :: y) := by
    have hnot := not_exists.mp hold h₄
    simp only [mem_append, mem_cons, not_or] at hnot ⊢
    refine ⟨hnot.1.1, ?_, hnot.1.2, nofun, hnot.2⟩
    rintro ⟨⟩
    exact hne rfl
  have hasc := ho.ascending
  simp only [pairwise_append, pairwise_cons, mem_append, mem_cons] at hasc
  have h12 : h₁ ≤ h₂ := hasc.2.1.1 (.published h₂ new) (by simp)
  have h23 : h₂ ≤ h₃ := hasc.2.1.2.2.1.1 (.delivered h₃ target new) (by simp)
  have h34 : h₃ ≤ h₄ := hasc.2.1.2.2.1.2.2.1.1 (.delivered h₄ target old) (by simp)
  have hsplit' : (before ++ [.published h₁ old]) ++ (mid ++ .published h₂ new ::
      (x ++ .delivered h₃ target new :: y)) = u ++ .published h₄ old :: (w ++ later) := by
    simpa using hsplit
  obtain ⟨d, rfl, hd⟩ | ⟨d, hbefore, hd⟩ := append_eq_append_iff.mp hsplit'
  · exact hrest (by simp [hd])
  cases d with
  | nil => exact hrest (hd ▸ mem_cons_self)
  | cons f d =>
    obtain ⟨rfl, hd⟩ := List.cons.inj hd
    have h41 : h₄ ≤ h₁ := by
      have hmem : PostFact.published h₄ old ∈ before ++ [.published h₁ old] := by simp [hbefore]
      obtain hin | heq := mem_append.mp hmem
      · exact hasc.2.2 _ hin _ (.inl rfl)
      · cases mem_singleton.mp heq
        exact Nat.le_refl _
    obtain rfl : h₃ = h₄ := Nat.le_antisymm h34 (h41.trans (h12.trans h23))
    obtain rfl : h₂ = h₃ := Nat.le_antisymm h23 (h41.trans h12)
    have hsuffix := suffix_of_notMem (c := d ++ mid) (by simpa using hd) (hw new)
    exact hnone new (hsuffix.subset (by simp))

end Record

/-- What a task knows: that it holds a lane, or that its envelope passed there. -/
inductive View
  | idle
  | lane (h : Handle) (target : PeerId)
  | checked (h : Handle) (target : PeerId) (envelope : Bytes)

def Knows (g : Post) (i : ℕ) : View → Prop
  | .idle => True
  | .lane h target => g.lanes h target = some i
  | .checked h target envelope =>
    g.lanes h target = some i ∧ CheckedIn g.facts h target envelope

structure Inv (w : World × Post) (V : ℕ → View) : Prop where
  tickets : ∀ h, (w.1.cells h).session.workspaceTicket = lastPublished h w.2.facts
  bounded : ∀ f ∈ w.2.facts, handleOf f < w.1.nextHandle
  orderly : Orderly w.2.facts
  knows : ∀ i, Knows w.2 i (V i)

structure Keeps (s s' : World) : Prop where
  handles : s.nextHandle ≤ s'.nextHandle
  tickets : ∀ h, (s'.cells h).session.workspaceTicket = (s.cells h).session.workspaceTicket ∨
    s.nextHandle ≤ h ∧ (s'.cells h).session.workspaceTicket = none

theorem Keeps.of_eq {s s' : World} (hhandles : s'.nextHandle = s.nextHandle)
    (hcells : s'.cells = s.cells) : Keeps s s' :=
  ⟨Nat.le_of_eq hhandles.symm, fun h => .inl (by rw [hcells])⟩

theorem Keeps.modify (s : World) (h : Handle) {f : Cell → Cell}
    (hf : ∀ c, (f c).session.workspaceTicket = c.session.workspaceTicket) :
    Keeps s (s.modify h f) := by
  refine ⟨Nat.le_refl _, fun k => .inl ?_⟩
  by_cases hk : k = h
  · rw [hk, World.modify_cells_self, hf]
  · rw [World.modify_cells_of_ne _ _ hk]

theorem Keeps.insert (s : World) {session : Session} (hnone : session.workspaceTicket = none) :
    Keeps s { s.insert session with writer := none } := by
  refine ⟨Nat.le_succ _, fun k => ?_⟩
  by_cases hk : k = s.nextHandle
  · subst hk
    right
    refine ⟨Nat.le_refl _, ?_⟩
    simpa using hnone
  · left
    have hcell : (s.insert session).cells k = s.cells k := update_of_ne hk ..
    simp [hcell]

variable {s s' : World} {g g' : Post} {V : ℕ → View} {i : ℕ}

theorem Inv.keeps (hI : Inv (s, g) V) (hs : Keeps s s') (hlanes : g'.lanes = g.lanes)
    (hfacts : g'.facts = g.facts) : Inv (s', g') V := by
  refine ⟨fun h => ?_, fun f hf => ?_, ?_, fun i => ?_⟩
  · have hold := hI.tickets h
    obtain heq | ⟨hle, hnone⟩ := hs.tickets h
    · exact heq.trans (hfacts ▸ hold)
    refine hnone.trans ?_
    -- nothing was published on a session that is new
    refine (lastPublished_eq_none fun f hf heq => ?_).symm
    have hlt := hI.bounded f (hfacts ▸ hf)
    rw [heq] at hlt
    exact absurd hle (Nat.not_le.mpr hlt)
  · exact Nat.lt_of_lt_of_le (hI.bounded f (hfacts ▸ hf)) hs.handles
  · exact hfacts ▸ hI.orderly
  · have hold := hI.knows i
    cases hv : V i with
    | idle => trivial
    | lane h target =>
      rw [hv] at hold
      exact (congrFun₂ hlanes h target).trans hold
    | checked h target envelope =>
      rw [hv] at hold
      exact ⟨(congrFun₂ hlanes h target).trans hold.1, hfacts ▸ hold.2⟩

variable {h : Handle} {target : PeerId}

theorem Knows.setLane (holder : Option ℕ) {v : View} (hv : Knows g i v)
    (hother : g.lanes h target ≠ some i) :
    Knows { g with
      lanes := update g.lanes h (update (g.lanes h) target holder) } i v := by
  have hlane : ∀ k p, g.lanes k p = some i →
      update g.lanes h (update (g.lanes h) target holder) k p = some i := by
    intro k p hkp
    by_cases hk : k = h
    · subst hk
      rw [update_self]
      by_cases hp : p = target
      · exact absurd (hp ▸ hkp) hother
      · rwa [update_of_ne hp]
    · rwa [update_of_ne hk]
  cases v with
  | idle => trivial
  | lane k p => exact hlane k p hv
  | checked k p envelope => exact ⟨hlane k p hv.1, hv.2⟩

theorem Inv.lockLane (hI : Inv (s, g) V) (hfree : g.lanes h target = none) :
    Inv (s, { g with
      lanes := update g.lanes h (update (g.lanes h) target (some i)) })
      (update V i (.lane h target)) := by
  refine ⟨hI.tickets, hI.bounded, hI.orderly, fun j => ?_⟩
  by_cases hj : j = i
  · subst hj
    rw [update_self]
    simp [Knows]
  · rw [update_of_ne hj]
    exact (hI.knows j).setLane _ (by rw [hfree]; nofun)

theorem Inv.unlockLane (hI : Inv (s, g) V)
    (hlane : g.lanes h target = some i) :
    Inv (s, { g with
      lanes := update g.lanes h (update (g.lanes h) target none) })
      (update V i .idle) := by
  refine ⟨hI.tickets, hI.bounded, hI.orderly, fun j => ?_⟩
  by_cases hj : j = i
  · subst hj
    rw [update_self]
    trivial
  · rw [update_of_ne hj]
    exact (hI.knows j).setLane _ (by rw [hlane]; exact fun heq => hj (Option.some.inj heq).symm)

variable {envelope : Bytes}

theorem Inv.check (hI : Inv (s, g) V)
    (hlane : g.lanes h target = some i)
    (hticket : (s.cells h).session.workspaceTicket = some envelope) :
    Inv (s, g) (update V i (.checked h target envelope)) := by
  refine ⟨hI.tickets, hI.bounded, hI.orderly, fun j => ?_⟩
  by_cases hj : j = i
  · subst hj
    rw [update_self]
    exact ⟨hlane, g.facts, [], by simp, (hI.tickets h).symm.trans hticket, by simp⟩
  · rw [update_of_ne hj]
    exact hI.knows j

theorem Inv.note (hI : Inv (s, g) V) {f : PostFact} (hnew : handleOf f + 1 = s.nextHandle)
    (htickets : ∀ h, (s'.cells h).session.workspaceTicket =
      (publishedOn h f).or (s.cells h).session.workspaceTicket)
    (hhandles : s'.nextHandle = s.nextHandle)
    (hf : ∀ h target envelope, f = .delivered h target envelope →
      CheckedIn g.facts h target envelope)
    (hknows : ∀ j, Knows { g with facts := g.facts ++ [f] } j (V j)) :
    Inv (s', { g with facts := g.facts ++ [f] }) V := by
  have hle : ∀ k ∈ g.facts, handleOf k ≤ handleOf f := fun k hk =>
    Nat.le_of_lt_succ (Nat.lt_of_lt_of_eq (hI.bounded k hk) hnew.symm)
  refine ⟨fun h => ?_, fun k hk => ?_, hI.orderly.append hle hf, hknows⟩
  · rw [htickets h, lastPublished_append, hI.tickets h]
  · have hlt : handleOf f < s'.nextHandle := hhandles ▸ hnew ▸ Nat.lt_succ_self _
    obtain hold | hlast := mem_append.mp hk
    · exact Nat.lt_of_le_of_lt (hle k hold) hlt
    · rwa [mem_singleton.mp hlast]

theorem Knows.publish {v : View} (hv : Knows g i v) :
    Knows { g with facts := g.facts ++ [.published h envelope] } i v := by
  cases v with
  | idle => trivial
  | lane k p => exact hv
  | checked k p e => exact ⟨hv.1, hv.2.append nofun⟩

theorem Knows.deliver {v : View} (hv : Knows g i v)
    (hother : g.lanes h target ≠ some i) :
    Knows { g with facts := g.facts ++ [.delivered h target envelope] } i v := by
  cases v with
  | idle => trivial
  | lane k p => exact hv
  | checked k p e =>
    refine ⟨hv.1, hv.2.append fun other heq => ?_⟩
    cases heq
    exact hother hv.1

theorem Inv.publish (hI : Inv (s, g) V) (hnew : h + 1 = s.nextHandle) :
    Inv (s.modify h fun c => { c with session := { c.session with workspaceTicket := some envelope } },
      { g with facts := g.facts ++ [.published h envelope] }) V := by
  refine hI.note (f := .published h envelope) hnew (fun k => ?_) rfl nofun fun j => (hI.knows j).publish
  by_cases hk : k = h
  · subst hk
    simp [publishedOn]
  · rw [World.modify_cells_of_ne _ _ hk]
    simp [publishedOn, Ne.symm hk]

theorem Inv.deliver (hI : Inv (s, g) V)
    (hv : V i = .checked h target envelope) (hnew : h + 1 = s.nextHandle) :
    Inv (s, { g with facts := g.facts ++ [.delivered h target envelope] })
      (update V i (.lane h target)) := by
  have hmine := hI.knows i
  rw [hv] at hmine
  have hlane : Inv (s, g) (update V i (.lane h target)) := by
    refine ⟨hI.tickets, hI.bounded, hI.orderly, fun j => ?_⟩
    by_cases hj : j = i
    · subst hj
      rw [update_self]
      exact hmine.1
    · rw [update_of_ne hj]
      exact hI.knows j
  refine hlane.note (f := .delivered h target envelope) hnew (fun _ => rfl) rfl ?_ fun j => ?_
  · rintro _ _ _ ⟨⟩
    exact hmine.2
  · by_cases hj : j = i
    · subst hj
      rw [update_self]
      exact hmine.1
    · exact (hlane.knows j).deliver (by rw [hmine.1]; exact fun heq => hj (Option.some.inj heq).symm)

end Artel.Delivering
