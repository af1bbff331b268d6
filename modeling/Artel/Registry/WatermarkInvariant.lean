import Artel.Registry.Watermark

namespace Artel.Watermark

open Store Function

/-- No step takes anything back: a mirror stays in the map, and its epoch does not fall. -/
structure Forward (s s' : World) : Prop where
  sessions : ∀ h, s.sessions = some h → s'.sessions = some h
  next : s.nextHandle ≤ s'.nextHandle
  memory : ∀ h, h < s.nextHandle → (s.cells h).session.hostEpoch ≤ (s'.cells h).session.hostEpoch

/-- Its lock, its handle, and the epochs that record and mirror have reached. -/
structure View where
  grip : Option (Handle × Session)
  known : Option Handle
  mirror : Option Handle
  stored : Option UInt64
  reached : Option UInt64
  seed : Option (Handle × UInt64)

def View.idle : View := ⟨none, none, none, none, none, none⟩

/-- If there is a mirror in the map, the call has its lock. -/
def Shields (s : World) (v : View) : Prop := ∀ h, s.sessions = some h → ∃ x, v.grip = some (h, x)

structure Knows (floor : UInt64) (s : World) (m : Marks) (i : ℕ) (v : View) : Prop where
  grip : ∀ h x, v.grip = some (h, x) →
    (s.cells h).holder = some i ∧ (s.cells h).session = x ∧ h < s.nextHandle
  known : ∀ h, v.known = some h → h < s.nextHandle
  mirror : ∀ h, v.mirror = some h → s.sessions = some h
  stored : ∀ epoch, v.stored = some epoch → Shields s v →
    ∃ doc, storedMeta s.disk = some doc ∧ epoch ≤ doc.hostEpoch
  reached : ∀ epoch, v.reached = some epoch →
    ∃ h, s.sessions = some h ∧ epoch ≤ (s.cells h).session.hostEpoch
  seed : ∀ h epoch, v.seed = some (h, epoch) → m.seeds i = some (h, epoch) ∧ s.sessions = some h ∧
    floor ≤ epoch ∧ epoch ≤ (s.cells h).session.hostEpoch

/-- Watermark, mirror and record in ascending order, none below `floor`. -/
structure Inv (floor : UInt64) (w : World × Marks) (V : ℕ → View) : Prop where
  mirror : ∀ h, w.1.sessions = some h → h < w.1.nextHandle ∧
    (w.1.cells h).session.kind = .Remote ∧ floor ≤ (w.1.cells h).session.hostEpoch ∧
    ∃ doc, storedMeta w.1.disk = some doc ∧ (w.1.cells h).session.hostEpoch ≤ doc.hostEpoch
  stored : floor ≠ 0 → ∃ doc, storedMeta w.1.disk = some doc ∧ floor ≤ doc.hostEpoch
  remote : ∀ doc, storedMeta w.1.disk = some doc → doc.kind = .Remote
  forwarders : ∀ h ∈ w.1.forwarders, h < w.1.nextHandle
  live : ∀ j h epoch, w.2.live j = some (h, epoch) → w.1.sessions = some h ∧ floor ≤ epoch ∧
    epoch ≤ (w.1.cells h).session.hostEpoch
  knows : ∀ i, Knows floor w.1 w.2 i (V i)

variable {floor : UInt64} {s s' : World} {m m' : Marks} {V : ℕ → View} {i : ℕ} {v : View}

theorem Knows.forward {j : ℕ} (h : Knows floor s m j v) (hf : Forward s s')
    (hbound : ∀ k, s.sessions = some k → k < s.nextHandle)
    (hraised : Shields s v → Raised s.disk s'.disk)
    (hgrip : ∀ k x, v.grip = some (k, x) →
      (s'.cells k).holder = (s.cells k).holder ∧ (s'.cells k).session = (s.cells k).session)
    (hseed : m'.seeds j = m.seeds j) : Knows floor s' m' j v := by
  refine ⟨fun k x hk => ?_, fun k hk => (h.known k hk).trans_le hf.next,
    fun k hk => hf.sessions k (h.mirror k hk), fun e he hshields => ?_, fun e he => ?_,
    fun k e he => ?_⟩
  · obtain ⟨hholder, hsession⟩ := hgrip k x hk
    obtain ⟨h1, h2, h3⟩ := h.grip k x hk
    exact ⟨hholder.trans h1, hsession.trans h2, h3.trans_le hf.next⟩
  · have hbefore : Shields s v := fun k hk => hshields k (hf.sessions k hk)
    obtain ⟨doc, hdoc, hle⟩ := h.stored e he hbefore
    obtain ⟨doc', hdoc', hle'⟩ := hraised hbefore doc hdoc
    exact ⟨doc', hdoc', UInt64.le_trans hle hle'⟩
  · obtain ⟨k, hk, hle⟩ := h.reached e he
    exact ⟨k, hf.sessions k hk, UInt64.le_trans hle (hf.memory k (hbound k hk))⟩
  · obtain ⟨h1, h2, h3, h4⟩ := h.seed k e he
    exact ⟨hseed.trans h1, hf.sessions k h2, h3, UInt64.le_trans h4 (hf.memory k (hbound k h2))⟩

theorem Inv.step (hI : Inv floor (s, m) V) (hf : Forward s s')
    (hmirror : ∀ h, s'.sessions = some h → h < s'.nextHandle ∧
      (s'.cells h).session.kind = .Remote ∧ floor ≤ (s'.cells h).session.hostEpoch ∧
      ∃ doc, storedMeta s'.disk = some doc ∧ (s'.cells h).session.hostEpoch ≤ doc.hostEpoch)
    (hremote : ∀ doc, storedMeta s'.disk = some doc → doc.kind = .Remote)
    (hforwarders : ∀ h ∈ s'.forwarders, h < s'.nextHandle)
    (hlive : ∀ j h epoch, m'.live j = some (h, epoch) → s'.sessions = some h ∧ floor ≤ epoch ∧
      epoch ≤ (s'.cells h).session.hostEpoch)
    (hraised : (∀ h, s.sessions = some h → (s.cells h).holder ≠ some i) → Raised s.disk s'.disk)
    (hgrip : ∀ j, j ≠ i → ∀ k x, (V j).grip = some (k, x) →
      (s'.cells k).holder = (s.cells k).holder ∧ (s'.cells k).session = (s.cells k).session)
    (hseed : ∀ j, j ≠ i → m'.seeds j = m.seeds j) (hself : Knows floor s' m' i v) :
    Inv floor (s', m') (update V i v) := by
  refine ⟨hmirror, fun hfloor => ?_, hremote, hforwarders, hlive, fun j => ?_⟩
  · cases hnone : s'.sessions with
    | none =>
      obtain ⟨doc, hdoc, hle⟩ := hI.stored hfloor
      obtain ⟨doc', hdoc', hle'⟩ := hraised (fun h hh => absurd (hf.sessions h hh) (hnone ▸ nofun))
        doc hdoc
      exact ⟨doc', hdoc', UInt64.le_trans hle hle'⟩
    | some h =>
      obtain ⟨-, -, hle, doc, hdoc, hle'⟩ := hmirror h hnone
      exact ⟨doc, hdoc, UInt64.le_trans hle hle'⟩
  · by_cases hj : j = i
    · rw [hj, update_self]
      exact hself
    · rw [update_of_ne hj]
      refine (hI.knows j).forward hf (fun k hk => (hI.mirror k hk).1) (fun hshields => ?_) (hgrip j hj)
        (hseed j hj)
      apply hraised
      intro h hh hheld
      obtain ⟨x, hx⟩ := hshields h hh
      exact hj (Option.some.inj (((hI.knows j).grip h x hx).1.symm.trans hheld))

theorem Inv.live_forward (hI : Inv floor (s, m) V) (hf : Forward s s') (j : ℕ) (h : Handle)
    (epoch : UInt64) (hj : m.live j = some (h, epoch)) : s'.sessions = some h ∧ floor ≤ epoch ∧
      epoch ≤ (s'.cells h).session.hostEpoch := by
  obtain ⟨h1, h2, h3⟩ := hI.live j h epoch hj
  exact ⟨hf.sessions h h1, h2, UInt64.le_trans h3 (hf.memory h (hI.mirror h h1).1)⟩

variable {h : Handle}

theorem Knows.grip_ne {j : ℕ} {w : View} {k : Handle} {x y : Session} (hi : Knows floor s m i v)
    (hj : Knows floor s m j w) (hij : j ≠ i) (hv : v.grip = some (h, x)) (hw : w.grip = some (k, y)) :
    k ≠ h := by
  rintro rfl
  have hholder := (hj.grip k y hw).1
  rw [(hi.grip k x hv).1] at hholder
  exact hij (Option.some.inj hholder).symm

theorem Inv.learn (hI : Inv floor (s, m) V) (hself : Knows floor s m i v) :
    Inv floor (s, m) (update V i v) :=
  hI.step ⟨fun _ hk => hk, Nat.le_refl _, fun _ _ => UInt64.le_refl _⟩ hI.mirror hI.remote
    hI.forwarders hI.live (fun _ => Raised.refl _) (fun _ _ _ _ _ => ⟨rfl, rfl⟩) (fun _ _ => rfl) hself

theorem Inv.elsewhere (hI : Inv floor (s, m) V) (hsessions : s'.sessions = s.sessions)
    (hnext : s'.nextHandle = s.nextHandle) (hcells : ∀ k, (s'.cells k).session = (s.cells k).session ∧
      (s'.cells k).holder = (s.cells k).holder) (hdisk : s'.disk = s.disk)
    (hforwarders : ∀ h ∈ s'.forwarders, h ∈ s.forwarders) : Inv floor (s', m) V := by
  have hf : Forward s s' := by
    refine ⟨fun h hh => hsessions.trans hh, hnext.ge, fun h _ => ?_⟩
    rw [(hcells h).1]
    exact UInt64.le_refl _
  have hraised : Raised s.disk s'.disk := hdisk ▸ Raised.refl _
  have hstep := hI.step (i := 0) (v := V 0) hf ?_ ?_ ?_ (hI.live_forward hf) (fun _ => hraised) ?_
    (fun _ _ => rfl) ?_
  · rwa [update_eq_self] at hstep
  · rw [hsessions, hnext, hdisk]
    intro h hh
    rw [(hcells h).1]
    exact hI.mirror h hh
  · rw [hdisk]
    exact hI.remote
  · rw [hnext]
    exact fun h hh => hI.forwarders h (hforwarders h hh)
  · exact fun j _ k x _ => ⟨(hcells k).2, (hcells k).1⟩
  · exact (hI.knows 0).forward hf (fun k hk => (hI.mirror k hk).1) (fun _ => hraised)
      (fun k x _ => ⟨(hcells k).2, (hcells k).1⟩) rfl

variable {disk : Disk}

section

variable (hI : Inv floor (s, m) V)
include hI

theorem Inv.store
    (hremote : ∀ doc, storedMeta disk = some doc → doc.kind = .Remote)
    (hmemory : ∀ h, s.sessions = some h →
      ∃ doc, storedMeta disk = some doc ∧ (s.cells h).session.hostEpoch ≤ doc.hostEpoch)
    (hraised : (∀ h, s.sessions = some h → (s.cells h).holder ≠ some i) → Raised s.disk disk)
    (hstored : ∀ epoch, v.stored = some epoch → Shields s v →
      ∃ doc, storedMeta disk = some doc ∧ epoch ≤ doc.hostEpoch)
    (hself : Knows floor s m i { v with stored := none }) :
    Inv floor ({ s with disk := disk }, m) (update V i v) := by
  have hf : Forward s { s with disk := disk } :=
    ⟨fun _ hh => hh, Nat.le_refl _, fun _ _ => UInt64.le_refl _⟩
  refine hI.step hf (fun h hh => ?_) hremote hI.forwarders (hI.live_forward hf) hraised
    (fun _ _ _ _ _ => ⟨rfl, rfl⟩) (fun _ _ => rfl)
    ⟨hself.grip, hself.known, hself.mirror, hstored, hself.reached, hself.seed⟩
  obtain ⟨h1, h2, h3, -⟩ := hI.mirror h hh
  exact ⟨h1, h2, h3, hmemory h hh⟩

theorem Inv.memory_of_raised (hraised : Raised s.disk disk)
    (h : Handle) (hh : s.sessions = some h) :
    ∃ doc, storedMeta disk = some doc ∧ (s.cells h).session.hostEpoch ≤ doc.hostEpoch := by
  obtain ⟨-, -, -, doc, hdoc, hle⟩ := hI.mirror h hh
  obtain ⟨doc', hdoc', hle'⟩ := hraised doc hdoc
  exact ⟨doc', hdoc', UInt64.le_trans hle hle'⟩

theorem Inv.store_stamp
    (h : (storedMeta disk).map stamp = (storedMeta s.disk).map stamp) :
    Inv floor ({ s with disk := disk }, m) V := by
  have hraised := raised_of_stamp h
  have hi := hI.knows 0
  have hstep := hI.store (i := 0) (v := V 0) (remote_of_stamp h hI.remote) (hI.memory_of_raised hraised)
    (fun _ => hraised) ?_ ⟨hi.grip, hi.known, hi.mirror, nofun, hi.reached, hi.seed⟩
  · rwa [update_eq_self] at hstep
  · intro epoch hepoch hshields
    obtain ⟨doc, hdoc, hle⟩ := hi.stored epoch hepoch hshields
    obtain ⟨doc', hdoc', hle'⟩ := hraised doc hdoc
    exact ⟨doc', hdoc', UInt64.le_trans hle hle'⟩

theorem Inv.store_record (hv : V i = v) {epoch : UInt64}
    (hdisk : (storedMeta disk).map stamp = some (.Remote, epoch))
    (hcase : (∀ doc, storedMeta s.disk = some doc → doc.hostEpoch ≤ epoch) ∨
      ∃ h x, v.grip = some (h, x) ∧ v.mirror = some h ∧ x.hostEpoch ≤ epoch) :
    Inv floor ({ s with disk := disk }, m) (update V i { v with stored := some epoch }) := by
  obtain ⟨doc, hdoc, heq⟩ := Option.map_eq_some_iff.mp hdisk
  obtain ⟨hkind, hepoch⟩ := Prod.mk.inj heq
  have hi := hI.knows i
  rw [hv] at hi
  refine hI.store (fun doc' hdoc' => ?_) (fun h hh => ⟨doc, hdoc, ?_⟩) (fun hfree => ?_) ?_
    ⟨hi.grip, hi.known, hi.mirror, nofun, hi.reached, hi.seed⟩
  · rw [← Option.some.inj (hdoc.symm.trans hdoc')]
    exact hkind
  · rcases hcase with hlow | ⟨k, x, hgrip, hmirror, hle⟩
    · obtain ⟨-, -, -, doc', hdoc', hle⟩ := hI.mirror h hh
      exact UInt64.le_trans hle (hepoch ▸ hlow doc' hdoc')
    · obtain rfl := Option.some.inj (hh.symm.trans (hi.mirror k hmirror))
      exact (hi.grip h x hgrip).2.1 ▸ hepoch ▸ hle
  · rcases hcase with hlow | ⟨k, x, hgrip, hmirror, -⟩
    · exact fun doc' hdoc' => ⟨doc, hdoc, hepoch ▸ hlow doc' hdoc'⟩
    · exact absurd (hi.grip k x hgrip).1 (hfree k (hi.mirror k hmirror))
  · rintro e ⟨⟩ -
    exact ⟨doc, hdoc, hepoch ▸ UInt64.le_refl _⟩

end

variable {f : Cell → Cell}

theorem forward_modify
    (hepoch : (s.cells h).session.hostEpoch ≤ (f (s.cells h)).session.hostEpoch) :
    Forward s (s.modify h f) := by
  refine ⟨fun _ hk => hk, Nat.le_refl _, fun k _ => ?_⟩
  by_cases hk : k = h
  · rw [hk, World.modify_cells_self]
    exact hepoch
  · rw [World.modify_cells_of_ne _ _ hk]
    exact UInt64.le_refl _

theorem Inv.modify (hI : Inv floor (s, m) V)
    (hkind : (f (s.cells h)).session.kind = (s.cells h).session.kind)
    (hepoch : (s.cells h).session.hostEpoch ≤ (f (s.cells h)).session.hostEpoch)
    (hstored : s.sessions = some h →
      ∃ doc, storedMeta s.disk = some doc ∧ (f (s.cells h)).session.hostEpoch ≤ doc.hostEpoch)
    (hother : ∀ j, j ≠ i → ∀ k x, (V j).grip = some (k, x) → k ≠ h) (hlive : m'.live = m.live)
    (hseed : ∀ j, j ≠ i → m'.seeds j = m.seeds j) (hself : Knows floor (s.modify h f) m' i v) :
    Inv floor (s.modify h f, m') (update V i v) := by
  have hf := forward_modify hepoch
  refine hI.step hf (fun k hk => ?_) hI.remote hI.forwarders ?_ (fun _ => Raised.refl _)
    (fun j hj k x hk => ?_) hseed hself
  · obtain ⟨h1, h2, h3, hdoc⟩ := hI.mirror k hk
    by_cases hkh : k = h
    · subst hkh
      rw [World.modify_cells_self]
      exact ⟨h1, hkind.trans h2, UInt64.le_trans h3 hepoch, hstored hk⟩
    · rw [World.modify_cells_of_ne _ _ hkh]
      exact ⟨h1, h2, h3, hdoc⟩
  · rw [hlive]
    exact hI.live_forward hf
  · rw [World.modify_cells_of_ne _ _ (hother j hj k x hk)]
    exact ⟨rfl, rfl⟩

theorem Knows.modify (hi : Knows floor s m i v)
    (hbound : ∀ k, s.sessions = some k → k < s.nextHandle)
    (hepoch : (s.cells h).session.hostEpoch ≤ (f (s.cells h)).session.hostEpoch) :
    Knows floor (s.modify h f) m i { v with grip := none, stored := none } :=
  Knows.forward ⟨nofun, hi.known, hi.mirror, nofun, hi.reached, hi.seed⟩ (forward_modify hepoch)
    hbound (fun _ => Raised.refl _) nofun rfl

end Artel.Watermark
