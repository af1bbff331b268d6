import Artel.Registry.Sequencer

namespace Artel.Sequencer

open Store Registry Function

inductive Held
  | free
  | held (s : Session)
  | wrote (s : Session) (w : Writing)

structure View where
  lock : Held
  /-- The grant it still owes. -/
  owed : Option (PeerId × Capability × Stage)

def View.idle : View := ⟨.free, none⟩

structure Knows (c : Cell) (i : ℕ) (v : View) : Prop where
  held : ∀ s, v.lock = .held s → c.holder = some i ∧ c.session = s
  wrote : ∀ s w, v.lock = .wrote s w → c.holder = some i ∧ c.session = s

/-- The views account for the lock, the grants, and what is stored and not committed. -/
structure Base (s : World) (t : Trace) (V : ℕ → View) (w : Option Writing) : Prop where
  entry : s.sessions = some 0
  knows : ∀ i, Knows (s.cells 0) i (V i)
  debts : ∀ x : Owed, x ∈ t.owed ↔ (V x.call).owed = some (x.peer, x.cap, x.stage)
  writing : ∀ y, w = some y ↔ ∃ i x, (V i).lock = .wrote x y

def Inv (P : State → Prop) (s : World × Trace) (V : ℕ → View) : Prop :=
  ∃ w, Base s.1 s.2 V w ∧ P ⟨(s.1.cells 0).session, s.1.disk, w, s.2⟩

section Base

variable {s : World} {t : Trace} {V : ℕ → View} {w : Option Writing} {i : ℕ}

theorem Knows.of_free {c : Cell} {v : View} (h : v.lock = .free) : Knows c i v := by
  constructor <;> intros <;> simp_all

theorem Knows.free_of_holder {c : Cell} {v : View} (h : Knows c i v) (hne : c.holder ≠ some i) :
    v.lock = .free := by
  cases hlock : v.lock with
  | free => rfl
  | held s => exact absurd (h.held s hlock).1 hne
  | wrote s w => exact absurd (h.wrote s w hlock).1 hne

theorem Knows.holder {c : Cell} {v : View} (h : Knows c i v) (hne : v.lock ≠ .free) :
    c.holder = some i := by
  by_contra hholder
  exact hne (h.free_of_holder hholder)

theorem Base.alone (h : Base s t V w) (hi : (V i).lock ≠ .free) {j : ℕ} (hj : j ≠ i) :
    (V j).lock = .free := by
  apply (h.knows j).free_of_holder
  rw [(h.knows i).holder hi]
  intro heq
  exact hj (Option.some.inj heq).symm

theorem Base.not_writing (h : Base s t V w) {x : Session} (hi : (V i).lock = .held x) :
    w = none := by
  cases hw : w with
  | none => rfl
  | some y =>
    obtain ⟨j, x', hj⟩ := (h.writing y).mp hw
    by_cases hij : j = i
    · rw [hij, hi] at hj
      cases hj
    · have hfree := h.alone (i := i) (by simp [hi]) hij
      rw [hfree] at hj
      cases hj

variable {v' : View}

theorem debts_keep (h : Base s t V w) (howed : v'.owed = (V i).owed) (x : Owed) :
    x ∈ t.owed ↔ (update V i v' x.call).owed = some (x.peer, x.cap, x.stage) := by
  rw [h.debts x]
  by_cases hx : x.call = i
  · rw [hx, update_self, howed]
  · rw [update_of_ne hx]

theorem debts_admission (h : Base s t V w) (hnone : (V i).owed = none) {peer : PeerId}
    {cap : Capability} (howed : v'.owed = some (peer, cap, .admitted)) (x : Owed) :
    x ∈ t.owed ++ [⟨i, peer, cap, .admitted⟩] ↔
      (update V i v' x.call).owed = some (x.peer, x.cap, x.stage) := by
  rw [List.mem_append, List.mem_singleton, h.debts x]
  obtain ⟨call, p, c, stage⟩ := x
  by_cases hx : call = i
  · subst hx
    simp [hnone, howed, eq_comm]
  · simp [hx]

def moved (next : Stage → Option Stage) (owed : Option (PeerId × Capability × Stage)) :
    Option (PeerId × Capability × Stage) :=
  owed.bind fun x => (next x.2.2).map fun stage => (x.1, x.2.1, stage)

theorem debts_advance (h : Base s t V w) (next : Stage → Option Stage)
    (howed : v'.owed = moved next (V i).owed) (x : Owed) :
    x ∈ (t.advance i next).owed ↔
      (update V i v' x.call).owed = some (x.peer, x.cap, x.stage) := by
  simp only [Trace.advance, List.mem_filterMap]
  by_cases hx : x.call = i
  · rw [hx, update_self, howed]
    constructor
    · rintro ⟨y, hy, hyx⟩
      have hyv := (h.debts y).mp hy
      split at hyx
      · rename_i hcall
        obtain ⟨stage, hstage, rfl⟩ := Option.map_eq_some_iff.mp hyx
        rw [hcall] at hyv
        simp [moved, hyv, hstage]
      · rename_i hcall
        obtain rfl := Option.some.inj hyx
        exact absurd hx hcall
    · intro hm
      obtain ⟨⟨p, c, st⟩, hold, hnew⟩ := Option.bind_eq_some_iff.mp hm
      obtain ⟨stage, hstage, heq⟩ := Option.map_eq_some_iff.mp hnew
      refine ⟨⟨i, p, c, st⟩, (h.debts ⟨i, p, c, st⟩).mpr hold, ?_⟩
      obtain ⟨call, peer, cap, stage'⟩ := x
      simp only [Prod.mk.injEq] at heq hx
      obtain ⟨rfl, rfl, rfl⟩ := heq
      simp [hx, hstage]
  · rw [update_of_ne hx, ← h.debts x]
    constructor
    · rintro ⟨y, hy, hyx⟩
      split at hyx
      · rename_i hcall
        obtain ⟨stage, -, rfl⟩ := Option.map_eq_some_iff.mp hyx
        exact absurd hcall hx
      · obtain rfl := Option.some.inj hyx
        exact hy
    · intro hm
      exact ⟨x, hm, by simp [hx]⟩

theorem Base.update (h : Base s t V w) {s' : World} {t' : Trace} {w' : Option Writing}
    (hentry : s'.sessions = s.sessions) (hmine : Knows (s'.cells 0) i v')
    (hothers : ∀ j, j ≠ i → Knows (s'.cells 0) j (V j))
    (hdebts : ∀ x : Owed, x ∈ t'.owed ↔
      (update V i v' x.call).owed = some (x.peer, x.cap, x.stage))
    (hwriting : ∀ y, w' = some y ↔ ∃ j x, (update V i v' j).lock = .wrote x y) :
    Base s' t' (update V i v') w' where
  entry := hentry.trans h.entry
  knows j := by
    by_cases hj : j = i
    · rw [hj, update_self]
      exact hmine
    · rw [update_of_ne hj]
      exact hothers j hj
  debts := hdebts
  writing := hwriting

theorem writing_keep (h : Base s t V w) (hold : ∀ x y, (V i).lock ≠ .wrote x y)
    (hnew : ∀ x y, v'.lock ≠ .wrote x y) (y : Writing) :
    w = some y ↔ ∃ j x, (update V i v' j).lock = .wrote x y := by
  rw [h.writing y]
  constructor <;> rintro ⟨j, x, hj⟩ <;> refine ⟨j, x, ?_⟩
  · rwa [update_of_ne]
    rintro rfl
    exact hold x y hj
  · rwa [update_of_ne] at hj
    rintro rfl
    rw [update_self] at hj
    exact hnew x y hj

theorem writing_holder (h : Base s t V w) (hold : (V i).lock ≠ .free) (y : Writing) :
    (∃ x, v'.lock = .wrote x y) ↔ ∃ j x, (update V i v' j).lock = .wrote x y := by
  constructor
  · rintro ⟨x, hx⟩
    exact ⟨i, x, by rwa [update_self]⟩
  · rintro ⟨j, x, hj⟩
    by_cases hij : j = i
    · rw [hij, update_self] at hj
      exact ⟨x, hj⟩
    · rw [update_of_ne hij, h.alone hold hij] at hj
      cases hj

end Base

section Steps

variable {P : State → Prop} {s : World} {t : Trace} {V : ℕ → View} {i : ℕ} {x : Session}
  {owed : Option (PeerId × Capability × Stage)}

section

variable (h : Inv P (s, t) V)
include h

theorem Inv.session_eq (hv : V i = ⟨.held x, owed⟩) :
    (s.cells 0).session = x := by
  obtain ⟨w, hb, -⟩ := h
  exact ((hb.knows i).held x (by rw [hv])).2

theorem Inv.state (hv : V i = ⟨.held x, owed⟩) :
    P ⟨x, s.disk, none, t⟩ := by
  have hx := h.session_eq hv
  obtain ⟨w, hb, hP⟩ := h
  obtain rfl := hb.not_writing (i := i) (x := x) (by rw [hv])
  rwa [hx] at hP

theorem Inv.elsewhere {s' : World} (hsessions : s'.sessions = s.sessions)
    (hholder : (s'.cells 0).holder = (s.cells 0).holder)
    (hsession : (s'.cells 0).session = (s.cells 0).session) (hdisk : s'.disk = s.disk) :
    Inv P (s', t) V := by
  obtain ⟨w, hb, hP⟩ := h
  refine ⟨w, ⟨hsessions.trans hb.entry, fun j => ?_, hb.debts, hb.writing⟩, ?_⟩
  · obtain ⟨hheld, hwrote⟩ := hb.knows j
    constructor
    · rw [hholder, hsession]
      exact hheld
    · rw [hholder, hsession]
      exact hwrote
  · rw [hsession, hdisk]
    exact hP

theorem Inv.lock (hv : V i = ⟨.free, owed⟩)
    (hfree : (s.cells 0).holder = none) :
    Inv P (s.modify 0 fun c => { c with holder := some i }, t)
      (update V i ⟨.held (s.cells 0).session, owed⟩) := by
  obtain ⟨w, hb, hP⟩ := h
  refine ⟨w, hb.update rfl ?_ ?_ (debts_keep hb (by rw [hv])) (writing_keep hb ?_ ?_), ?_⟩
  · constructor
    · intro s' hs'
      obtain rfl := Held.held.inj hs'
      simp
    · intro s' w' hs'
      cases hs'
  · intro j _
    apply Knows.of_free
    apply (hb.knows j).free_of_holder
    rw [hfree]
    simp
  · simp [hv]
  · simp
  · rw [World.modify_cells_self]
    exact hP

theorem Inv.unlock (hv : V i = ⟨.held x, owed⟩) {t' : Trace}
    {owed' : Option (PeerId × Capability × Stage)}
    (hdebts : ∀ y : Owed, y ∈ t'.owed ↔
      (update V i ⟨.free, owed'⟩ y.call).owed = some (y.peer, y.cap, y.stage))
    (hP : P ⟨x, s.disk, none, t'⟩) :
    Inv P (s.modify 0 fun c => { c with holder := none }, t')
      (update V i ⟨.free, owed'⟩) := by
  have hx := h.session_eq hv
  obtain ⟨w, hb, -⟩ := h
  obtain rfl := hb.not_writing (i := i) (x := x) (by rw [hv])
  refine ⟨none, hb.update rfl (Knows.of_free rfl) ?_ hdebts (writing_keep hb ?_ ?_), ?_⟩
  · intro j hj
    exact Knows.of_free (hb.alone (by simp [hv]) hj)
  · simp [hv]
  · simp
  · rw [World.modify_cells_self, hx]
    exact hP

theorem Inv.holding {v : View} (hv : V i = v) (hlock : v.lock ≠ .free)
    {s' : World} {t' : Trace} {x' : Session} {v' : View}
    (hsessions : s'.sessions = s.sessions) (hholder : (s'.cells 0).holder = (s.cells 0).holder)
    (hsession : (s'.cells 0).session = x') (hv' : v'.lock = .held x')
    (hdebts : ∀ y : Owed, y ∈ t'.owed ↔
      (update V i v' y.call).owed = some (y.peer, y.cap, y.stage))
    (hP : P ⟨x', s'.disk, none, t'⟩) : Inv P (s', t') (update V i v') := by
  obtain ⟨w, hb, -⟩ := h
  have hmine : (V i).lock ≠ .free := by rwa [hv]
  refine ⟨none, hb.update hsessions ?_ ?_ hdebts fun y => ?_, ?_⟩
  · constructor
    · intro x hx
      rw [hv'] at hx
      obtain rfl := Held.held.inj hx
      exact ⟨hholder.trans ((hb.knows i).holder hmine), hsession⟩
    · intro x y hx
      rw [hv'] at hx
      cases hx
  · intro j hj
    exact Knows.of_free (hb.alone hmine hj)
  · rw [← writing_holder hb hmine y, hv']
    simp
  · rw [hsession]
    exact hP

theorem Inv.wrote (hv : V i = ⟨.held x, owed⟩) {disk : Disk} {t' : Trace}
    {y : Writing} (howed : t'.owed = t.owed) (hP : P ⟨x, disk, some y, t'⟩) :
    Inv P ({ s with disk := disk }, t') (update V i ⟨.wrote x y, owed⟩) := by
  have hx := h.session_eq hv
  obtain ⟨w, hb, -⟩ := h
  have hmine : (V i).lock ≠ .free := by simp [hv]
  refine ⟨some y, hb.update rfl ?_ ?_ ?_ fun z => ?_, ?_⟩
  · constructor
    · intro x' hx'
      cases hx'
    · intro x' y' hx'
      obtain ⟨rfl, rfl⟩ := Held.wrote.inj hx'
      exact ⟨(hb.knows i).holder hmine, hx⟩
  · intro j hj
    exact Knows.of_free (hb.alone hmine hj)
  · rw [howed]
    exact debts_keep hb (by rw [hv])
  · rw [← writing_holder hb hmine z]
    simp
  · rw [hx]
    exact hP

theorem Inv.of_wrote {y : Writing} (hv : V i = ⟨.wrote x y, owed⟩) :
    (s.cells 0).session = x ∧ P ⟨x, s.disk, some y, t⟩ := by
  obtain ⟨w, hb, hP⟩ := h
  have hlock : (V i).lock = .wrote x y := by rw [hv]
  have hx := ((hb.knows i).wrote x y hlock).2
  obtain rfl := (hb.writing y).mpr ⟨i, x, hlock⟩
  rw [hx] at hP
  exact ⟨hx, hP⟩

end

end Steps

section Notes

variable {ed : Ed25519} (d : Daemon ed) (id : SessionId) (i : ℕ)

def silent : Label → Bool
  | .write _ | .update _ | .unlock _ | .emit _ (.peerJoined _) => false
  | _ => true

theorem note_silent {l : Label} (hl : silent l = true) (o : HostedCall) (e : Env) (s s' : World)
    (t : Trace) : note d id i o l e s s' t = t := by
  cases o with
  | plain call =>
    cases call with
    | send draft => cases l <;> first | rfl | cases hl
    | ensureMember peer claim =>
      cases l with
      | emit h event => cases event <;> first | rfl | cases hl
      | _ => first | rfl | cases hl
    | _ => rfl
  | _ => rfl

end Notes

end Artel.Sequencer
