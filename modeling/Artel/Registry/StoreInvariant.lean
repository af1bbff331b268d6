import Artel.Lib.View
import Artel.Registry.Registry
import Artel.Session.Image

namespace Artel.StoreAgreement

open Function (forall_update_iff update_of_ne update_self)

open Registry Store

/-- A record unpublished, a handle known, a lock held, or a deletion to complete. -/
inductive View
  | idle
  | creating (session : Session)
  | found (h : Handle)
  | locked (h : Handle) (session : Session) (stored : Image) (deleted : Bool)
  | closing (h : Handle)
  | rolling

def View.settled : View → Prop
  | .idle => True
  | .found _ => True
  | _ => False

def View.owns : View → Prop
  | .creating _ => True
  | .rolling => True
  | _ => False

def View.closes : View → Option Handle
  | .locked h _ _ true => some h
  | .closing h => some h
  | _ => none

def View.locks : View → Option Handle
  | .locked h _ _ _ => some h
  | _ => none

def Knows (s : World) (i : ℕ) : View → Prop
  | .idle => True
  | .creating session => s.sessions = none ∧ ∃ dir, s.disk.dir = some dir ∧ Holds session.image dir
  | .found h => h < s.nextHandle
  | .locked h session stored deleted =>
    h < s.nextHandle ∧ (s.cells h).holder = some i ∧ (s.cells h).session = session ∧
      (s.sessions = some h → ∀ dir, s.disk.dir = some dir → deleted = false ∧ Holds stored dir)
  | .closing h => h < s.nextHandle ∧ (s.sessions = some h → s.disk.dir = none)
  | .rolling => s.sessions = none ∧ s.disk.dir ≠ none

structure Inv (s : World) (V : ℕ → View) : Prop where
  knows : ∀ i, Knows s i (V i)
  published : ∀ h, s.sessions = some h → h < s.nextHandle
  forwarders : ∀ h ∈ s.forwarders, h < s.nextHandle
  holders : ∀ h i, (s.cells h).holder = some i → (V i).locks = some h
  /-- A session that nobody works on is stored as it is. -/
  current : ∀ h dir, s.sessions = some h → s.disk.dir = some dir → (s.cells h).holder = none →
    Holds (s.cells h).session.image dir
  missing : ∀ h, s.sessions = some h → s.disk.dir = none → ∃ i, (V i).closes = some h
  orphan : s.sessions = none → s.disk.dir ≠ none → ∃ i, (V i).owns
  unique : ∀ i, (V i).owns → ∀ j, (V j).owns → i = j

/-- Records are created, written and removed in step with the map, without failures. -/
def Orderly : Label → Env → World → Prop
  | .floor, e, _ => e.fault = none
  | .create, e, s => e.fault = none ∧ s.sessions = none ∧ s.disk.dir = none
  | .write h, e, s => e.fault = none ∧ (s.disk.dir ≠ none → s.sessions = some h)
  | .rollbackDelete _, e, _ => e.fault = none
  | .unpublish h, _, s => s.sessions = none ∨ s.sessions = some h
  | .rollback h, _, s => s.sessions = some h ∧ s.disk.dir ≠ none
  | _, _, _ => True

instance (l : Label) (e : Env) (s : World) : Decidable (Orderly l e s) :=
  match l with
  | .floor => inferInstanceAs (Decidable (e.fault = none))
  | .create => inferInstanceAs (Decidable (e.fault = none ∧ s.sessions = none ∧ s.disk.dir = none))
  | .write h =>
    inferInstanceAs (Decidable (e.fault = none ∧ (s.disk.dir ≠ none → s.sessions = some h)))
  | .rollbackDelete _ => inferInstanceAs (Decidable (e.fault = none))
  | .unpublish h => inferInstanceAs (Decidable (s.sessions = none ∨ s.sessions = some h))
  | .rollback h => inferInstanceAs (Decidable (s.sessions = some h ∧ s.disk.dir ≠ none))
  | .lookup | .joinLookup | .lock _ | .update _ | .unlock _ | .emit _ _ | .listen _ | .writeMap
  | .insert | .releaseMap | .claim | .adopt _ | .outcome _ | .post _ | .clearPending _ | .reserve _
  | .gossip | .spawn | .finalize | .releaseSlot | .forget _ | .conclude _ | .clock | .publish
  | .forward | .deliver _ => .isTrue trivial

/-- What a step of another call may do without touching what a view says. -/
structure Frame (s s' : World) (j : ℕ) (v : View) : Prop where
  next : s.nextHandle ≤ s'.nextHandle
  cell : ∀ h < s.nextHandle, (s.cells h).holder = some j →
    (s'.cells h).holder = some j ∧ (s'.cells h).session = (s.cells h).session
  entry : ∀ h < s.nextHandle, s'.sessions = some h → s.sessions = some h
  held : ∀ h, (s.cells h).holder = some j → s.sessions = some h →
    s'.disk.dir = s.disk.dir ∨ s'.disk.dir = none
  gone : ∀ h, s.sessions = some h → s.disk.dir = none → s'.disk.dir = none
  owner : v.owns → s'.sessions = none ∧ s'.disk.dir = s.disk.dir

theorem Knows.frame {s s' : World} {j : ℕ} {v : View} (h : Knows s j v) (hf : Frame s s' j v) :
    Knows s' j v := by
  cases v with
  | idle => trivial
  | creating session | rolling =>
    obtain ⟨hnone, hdir⟩ := hf.owner trivial
    exact ⟨hnone, by rw [hdir]; exact h.2⟩
  | found k => exact lt_of_lt_of_le h hf.next
  | locked k session stored deleted =>
    obtain ⟨hlt, hholder, hsession, hstored⟩ := h
    obtain ⟨hholder', hsession'⟩ := hf.cell k hlt hholder
    refine ⟨lt_of_lt_of_le hlt hf.next, hholder', hsession'.trans hsession, fun hs dir hdir => ?_⟩
    have hs' := hf.entry k hlt hs
    rcases hf.held k hholder hs' with hsame | hnone
    · rw [hsame] at hdir
      exact hstored hs' dir hdir
    · rw [hnone] at hdir
      cases hdir
  | closing k =>
    refine ⟨lt_of_lt_of_le h.1 hf.next, fun hs => ?_⟩
    have hs' := hf.entry k h.1 hs
    exact hf.gone k hs' (h.2 hs')

section Steps

variable {s s' : World} {V : ℕ → View} {i : ℕ}

theorem Inv.owner (hI : Inv s V) (h : (V i).owns) : s.sessions = none ∧ s.disk.dir ≠ none := by
  have hk := hI.knows i
  cases hv : V i with
  | creating session =>
    rw [hv] at hk
    obtain ⟨hnone, dir, hdir, -⟩ := hk
    exact ⟨hnone, by simp [hdir]⟩
  | rolling => rw [hv] at hk; exact hk
  | _ => rw [hv] at h; cases h

structure Same (s' s : World) : Prop where
  sessions : s'.sessions = s.sessions
  nextHandle : s'.nextHandle = s.nextHandle
  dir : s'.disk.dir = s.disk.dir
  cell : ∀ h, (s'.cells h).holder = (s.cells h).holder ∧ (s'.cells h).session = (s.cells h).session
  forwarders : ∀ h ∈ s'.forwarders, h < s.nextHandle

theorem Inv.of_same (hI : Inv s V) (h : Same s' s) : Inv s' V := by
  obtain ⟨h1, h2, h3, h4, h5⟩ := h
  refine { knows := fun i => ?_, published := ?_, forwarders := ?_, holders := ?_, current := ?_,
           missing := ?_, orphan := ?_, unique := hI.unique }
  · refine (hI.knows i).frame ⟨h2.ge, fun k _ hk => ?_, fun k _ hk => ?_, fun _ _ _ => .inl h3,
      fun _ _ hk => h3.trans hk, fun hv => ?_⟩
    · rw [(h4 k).1, (h4 k).2]
      exact ⟨hk, rfl⟩
    · rwa [h1] at hk
    · exact ⟨h1.trans (hI.owner hv).1, h3⟩
  · rw [h1, h2]; exact hI.published
  · rw [h2]; exact h5
  · intro k j hj
    rw [(h4 k).1] at hj
    exact hI.holders k j hj
  · intro k dir hs hdir hholder
    rw [h1] at hs
    rw [h3] at hdir
    rw [(h4 k).1] at hholder
    rw [(h4 k).2]
    exact hI.current k dir hs hdir hholder
  · rw [h1, h3]; exact hI.missing
  · rw [h1, h3]; exact hI.orphan

theorem closes_update {w : View} (h : w.closes = (V i).closes) (j : ℕ) :
    (Function.update V i w j).closes = (V j).closes := by
  by_cases hji : j = i
  · rw [hji, update_self, h]
  · rw [update_of_ne hji]

theorem holders_update (hI : Inv s V) {w : View} (h : w.locks = (V i).locks) :
    ∀ k j, (s.cells k).holder = some j → (Function.update V i w j).locks = some k := by
  intro k j hj
  by_cases hji : j = i
  · subst hji
    rw [update_self, h]
    exact hI.holders k j hj
  · rw [update_of_ne hji]
    exact hI.holders k j hj

theorem owns_of_update {w : View} (hw : ¬ w.owns) {j : ℕ} (h : (Function.update V i w j).owns) :
    j ≠ i ∧ (V j).owns := by
  by_cases hji : j = i
  · rw [hji, update_self] at h
    exact absurd h hw
  · rw [update_of_ne hji] at h
    exact ⟨hji, h⟩

theorem unique_update (hI : Inv s V) {w : View} (hw : ¬ w.owns) :
    ∀ j, (Function.update V i w j).owns → ∀ k, (Function.update V i w k).owns → j = k :=
  fun j hj k hk => hI.unique j (owns_of_update hw hj).2 k (owns_of_update hw hk).2

theorem unique_of_not_owns (hV : ∀ j, ¬ (V j).owns) (w : View) :
    ∀ j, (Function.update V i w j).owns → ∀ k, (Function.update V i w k).owns → j = k := by
  have hme : ∀ j, (Function.update V i w j).owns → j = i := by
    intro j hj
    by_contra hji
    rw [update_of_ne hji] at hj
    exact hV j hj
  exact fun j hj k hk => (hme j hj).trans (hme k hk).symm

theorem knows_update {w : View} (hI : Inv s V) (hw : Knows s' i w)
    (hframe : ∀ j, j ≠ i → Frame s s' j (V j)) : ∀ j, Knows s' j (Function.update V i w j) :=
  (forall_update_iff V (Knows s')).mpr ⟨hw, fun j hj => (hI.knows j).frame (hframe j hj)⟩

theorem View.settled.free {v : View} (h : v.settled) :
    ¬ v.owns ∧ v.closes = none ∧ v.locks = none := by
  cases v with
  | idle => exact ⟨not_false, rfl, rfl⟩
  | found h => exact ⟨not_false, rfl, rfl⟩
  | _ => cases h

section

variable (hI : Inv s V)
include hI

theorem Inv.found (hv : (V i).settled) {h : Handle} (hlt : h < s.nextHandle) :
    Inv s (Function.update V i (.found h)) := by
  obtain ⟨hown, hcloses, hlocks⟩ := hv.free
  refine { hI with knows := ?_, holders := holders_update hI hlocks.symm, missing := ?_,
                   orphan := ?_, unique := unique_update hI not_false }
  · exact (forall_update_iff V (Knows s)).mpr ⟨hlt, fun j _ => hI.knows j⟩
  · intro k hs hdir
    apply exists_update (fun v : View => v.closes = some k) (hI.missing k hs hdir)
    rw [hcloses]
    exact nofun
  · exact fun hs hdir => exists_update View.owns (hI.orphan hs hdir) hown _

theorem Inv.modify {h : Handle} {f : Cell → Cell} {w : View}
    (hlock : ∀ j, (s.cells h).holder = some j → j = i)
    (hholder : ∀ j, (f (s.cells h)).holder = some j → j = i ∧ w.locks = some h)
    (hlocks : ∀ k, (V i).locks = some k → k = h) (hk : Knows (s.modify h f) i w)
    (hcurrent : ∀ dir, s.sessions = some h → s.disk.dir = some dir →
      (f (s.cells h)).holder = none → Holds (f (s.cells h)).session.image dir)
    (hown : ¬ (V i).owns) (howns : ¬ w.owns) (hcloses : w.closes = (V i).closes) :
    Inv (s.modify h f) (Function.update V i w) := by
  refine { knows := ?_, published := hI.published, forwarders := hI.forwarders, holders := ?_,
           current := ?_, missing := ?_, orphan := ?_, unique := unique_update hI howns }
  · refine knows_update hI hk fun j hj => ⟨le_rfl, fun k _ hheld => ?_, fun _ _ hs => hs,
      fun _ _ _ => .inl rfl, fun _ _ hdir => hdir, fun hv => ⟨(hI.owner hv).1, rfl⟩⟩
    -- another call's lock is on another cell
    have hkh : k ≠ h := by
      rintro rfl
      exact hj (hlock j hheld)
    rw [World.modify_cells_of_ne _ _ hkh]
    exact ⟨hheld, rfl⟩
  · intro k j hj
    by_cases hkh : k = h
    · subst hkh
      rw [World.modify_cells_self] at hj
      obtain ⟨rfl, hw⟩ := hholder j hj
      rw [update_self, hw]
    rw [World.modify_cells_of_ne _ _ hkh] at hj
    have hvj := hI.holders k j hj
    have hji : j ≠ i := by
      rintro rfl
      exact hkh (hlocks k hvj)
    rw [update_of_ne hji, hvj]
  · intro k dir hs hdir hholder
    by_cases hkh : k = h
    · subst hkh
      rw [World.modify_cells_self] at hholder ⊢
      exact hcurrent dir hs hdir hholder
    · rw [World.modify_cells_of_ne _ _ hkh] at hholder ⊢
      exact hI.current k dir hs hdir hholder
  · intro k hs hdir
    obtain ⟨j, hj⟩ := hI.missing k hs hdir
    exact ⟨j, by rw [closes_update hcloses, hj]⟩
  · exact fun hs hdir => exists_update View.owns (hI.orphan hs hdir) hown w

theorem Inv.lock {h : Handle} (hv : V i = .found h)
    (hfree : (s.cells h).holder = none) :
    Inv (s.modify h fun c => { c with holder := some i })
      (Function.update V i (.locked h (s.cells h).session (s.cells h).session.image false)) := by
  have hlt : h < s.nextHandle := by
    have hk := hI.knows i
    rwa [hv] at hk
  apply hI.modify
  · intro j hj
    rw [hfree] at hj
    cases hj
  · intro j hj
    exact ⟨(Option.some.inj hj).symm, rfl⟩
  · intro k hk
    rw [hv] at hk
    cases hk
  · refine ⟨hlt, by rw [World.modify_cells_self], by rw [World.modify_cells_self], ?_⟩
    exact fun hs dir hdir => ⟨rfl, hI.current h dir hs hdir hfree⟩
  · intro dir _ _ hholder
    cases hholder
  · rw [hv]
    exact not_false
  · exact not_false
  · rw [hv]
    rfl

theorem Inv.modify_held {h : Handle} {session : Session} {stored : Image}
    {deleted : Bool} {f : Cell → Cell} {w : View} (hv : V i = .locked h session stored deleted)
    (hholder : ∀ j, (f (s.cells h)).holder = some j → j = i ∧ w.locks = some h)
    (hk : Knows (s.modify h f) i w)
    (hcurrent : ∀ dir, s.sessions = some h → s.disk.dir = some dir →
      (f (s.cells h)).holder = none → Holds (f (s.cells h)).session.image dir)
    (howns : ¬ w.owns) (hcloses : w.closes = (V i).closes) :
    Inv (s.modify h f) (Function.update V i w) := by
  have hheld := hI.knows i
  rw [hv] at hheld
  refine hI.modify (fun j hj => ?_) hholder (fun k hk => ?_) hk hcurrent ?_ howns hcloses
  · rw [hheld.2.1] at hj
    exact (Option.some.inj hj).symm
  · rw [hv] at hk
    exact (Option.some.inj hk).symm
  · rw [hv]
    exact not_false

theorem Inv.unlock {h : Handle} {session : Session}
    (hv : V i = .locked h session session.image false) :
    Inv (s.modify h fun c => { c with holder := none }) (Function.update V i (.found h)) := by
  have hk := hI.knows i
  rw [hv] at hk
  obtain ⟨hlt, -, hsession, hstored⟩ := hk
  apply hI.modify_held hv
  · exact fun j hj => (by cases hj)
  · exact hlt
  · intro dir hs hdir _
    change Holds (s.cells h).session.image dir
    rw [hsession]
    exact (hstored hs dir hdir).2
  · exact not_false
  · rw [hv]
    rfl

theorem Inv.unlock_deleted {h : Handle} {session : Session} {stored : Image}
    (hv : V i = .locked h session stored true) :
    Inv (s.modify h fun c => { c with holder := none }) (Function.update V i (.closing h)) := by
  have hk := hI.knows i
  rw [hv] at hk
  obtain ⟨hlt, -, -, hstored⟩ := hk
  have hnone : s.sessions = some h → s.disk.dir = none := by
    intro hs
    cases hdir : s.disk.dir with
    | none => rfl
    | some dir => cases (hstored hs dir hdir).1
  apply hI.modify_held hv
  · exact fun j hj => (by cases hj)
  · exact ⟨hlt, hnone⟩
  · intro dir hs hdir _
    rw [hnone hs] at hdir
    cases hdir
  · exact not_false
  · rw [hv]
    rfl

theorem Inv.update {h : Handle} {session : Session} {stored : Image}
    {deleted : Bool} (hv : V i = .locked h session stored deleted) (f : Session → Session) :
    Inv (s.modify h fun c => { c with session := f c.session })
      (Function.update V i (.locked h (f session) stored deleted)) := by
  have hk := hI.knows i
  rw [hv] at hk
  obtain ⟨hlt, hholder, hsession, hstored⟩ := hk
  apply hI.modify_held hv
  · intro j hj
    rw [hholder] at hj
    exact ⟨(Option.some.inj hj).symm, rfl⟩
  · refine ⟨hlt, by rw [World.modify_cells_self]; exact hholder, ?_, hstored⟩
    rw [World.modify_cells_self, ← hsession]
  · intro dir _ _ hfree
    rw [hholder] at hfree
    cases hfree
  · exact not_false
  · rw [hv]
    cases deleted <;> rfl

theorem Inv.disk {h : Handle} {session : Session} {x z : Image} {deleted : Bool}
    {disk : Disk} (hv : V i = .locked h session x false)
    (hguard : s.disk.dir ≠ none → s.sessions = some h)
    (hnone : s.disk.dir = none → disk.dir = none)
    (hsome : s.sessions = some h → ∀ dir, disk.dir = some dir → deleted = false ∧ Holds z dir)
    (hdeleted : s.disk.dir ≠ none → disk.dir = none → deleted = true) :
    Inv { s with disk := disk } (Function.update V i (.locked h session z deleted)) := by
  have hk := hI.knows i
  rw [hv] at hk
  obtain ⟨hlt, hholder, hsession, -⟩ := hk
  have hnotowner : ∀ j, ¬ (V j).owns := by
    intro j hj
    obtain ⟨hs, hdir⟩ := hI.owner hj
    rw [hguard hdir] at hs
    cases hs
  have hw : ¬ (View.locked h session z deleted).owns := not_false
  refine { knows := ?_, published := hI.published, forwarders := hI.forwarders,
           holders := holders_update hI (by rw [hv]; rfl), current := ?_, missing := ?_,
           orphan := ?_, unique := unique_update hI hw }
  · refine knows_update hI ⟨hlt, hholder, hsession, hsome⟩ fun j hj => ⟨le_rfl,
      fun k _ hholder => ⟨hholder, rfl⟩, fun _ _ hs => hs, fun k hk hs => ?_,
      fun _ _ hdir => hnone hdir, fun hv => absurd hv (hnotowner j)⟩
    -- the record is written to by the holder of the session in the map only
    by_cases hdir : s.disk.dir = none
    · exact .inr (hnone hdir)
    · rw [hguard hdir] at hs
      cases hs
      rw [hholder] at hk
      exact absurd (Option.some.inj hk).symm hj
  · intro k dir hs hdir hfree
    by_cases hold : s.disk.dir = none
    · rw [hnone hold] at hdir
      cases hdir
    · rw [hguard hold] at hs
      cases hs
      rw [hholder] at hfree
      cases hfree
  · intro k hs hdir
    by_cases hold : s.disk.dir = none
    · apply exists_update (fun v : View => v.closes = some k) (hI.missing k hs hold)
      rw [hv]
      exact nofun
    · rw [hguard hold] at hs
      cases hs
      refine ⟨i, ?_⟩
      rw [update_self, hdeleted hold hdir]
      rfl
  · intro hs hdir
    by_cases hold : s.disk.dir = none
    · exact absurd (hnone hold) hdir
    · rw [hguard hold] at hs
      cases hs

theorem Inv.unpublish {h : Handle} (hv : V i = .closing h)
    (hguard : s.sessions = none ∨ s.sessions = some h) :
    Inv { s with sessions := none } (Function.update V i (.found h)) := by
  have hk := hI.knows i
  rw [hv] at hk
  refine { knows := ?_, published := nofun, forwarders := hI.forwarders,
           holders := holders_update hI (by rw [hv]; rfl), current := nofun, missing := nofun,
           orphan := fun _ hdir => ?_, unique := unique_update hI not_false }
  · exact knows_update hI hk.1 fun j _ => ⟨le_rfl, fun _ _ hholder => ⟨hholder, rfl⟩,
      fun _ _ hs => (by cases hs), fun _ _ _ => .inl rfl, fun _ _ hdir => hdir,
      fun _ => ⟨rfl, rfl⟩⟩
  · rcases hguard with hnone | hsome
    · apply exists_update View.owns (hI.orphan hnone hdir)
      rw [hv]
      exact not_false
    · exact absurd (hk.2 hsome) hdir

theorem Inv.create {session : Session} {disk : Disk} (hv : (V i).locks = none)
    (hs : s.sessions = none) (hdir : s.disk.dir = none)
    (hholds : ∃ dir, disk.dir = some dir ∧ Holds session.image dir) :
    Inv { s with disk := disk } (Function.update V i (.creating session)) := by
  have hnotowner : ∀ j, ¬ (V j).owns := fun j hj => (hI.owner hj).2 hdir
  have hsome : ∀ {P : Prop} {h : Handle}, s.sessions = some h → P := by
    intro P h h'
    rw [hs] at h'
    cases h'
  refine { knows := ?_, published := hI.published, forwarders := hI.forwarders,
           holders := holders_update hI hv.symm, current := fun _ _ h => hsome h,
           missing := fun _ h => hsome h, orphan := fun _ _ => ?_,
           unique := unique_of_not_owns hnotowner _ }
  · exact knows_update hI ⟨hs, hholds⟩ fun j _ => ⟨le_rfl, fun _ _ hholder => ⟨hholder, rfl⟩,
      fun _ _ h => h, fun _ _ h => hsome h, fun _ h => hsome h, fun hj => absurd hj (hnotowner j)⟩
  · exact ⟨i, by rw [update_self]; trivial⟩

theorem Inv.insert {session : Session} (hv : V i = .creating session) :
    Inv (s.insert session) (Function.update V i (.found s.nextHandle)) := by
  have hk := hI.knows i
  rw [hv] at hk
  obtain ⟨hs, dir, hdir, hholds⟩ := hk
  have howner : ∀ j, (V j).owns → j = i := fun j hj => hI.unique j hj i (by rw [hv]; trivial)
  -- the record had one owner, who has published it now
  have hnone : ∀ j, ¬ (Function.update V i (.found s.nextHandle) j).owns := by
    intro j hj
    obtain ⟨hji, hj⟩ := owns_of_update (w := .found s.nextHandle) not_false hj
    exact hji (howner j hj)
  refine { knows := ?_, published := ?_, forwarders := ?_, holders := ?_, current := ?_,
           missing := ?_, orphan := nofun, unique := fun j hj => absurd hj (hnone j) }
  · refine knows_update hI (Nat.lt_succ_self _) fun j hj => ⟨Nat.le_succ _, fun k hk hholder => ?_,
      fun k hk h => ?_, fun k _ h => ?_, fun k h => ?_, fun hown => absurd (howner j hown) hj⟩
    · rw [World.insert_cells_of_lt _ _ hk]
      exact ⟨hholder, rfl⟩
    · have hkn : s.nextHandle = k := Option.some.inj h
      exact absurd hkn (Nat.ne_of_gt hk)
    · rw [hs] at h
      cases h
    · rw [hs] at h
      cases h
  · rintro k ⟨⟩
    exact Nat.lt_succ_self _
  · exact fun k hk => Nat.lt_succ_of_lt (hI.forwarders k hk)
  · intro k j hj
    by_cases hkn : k = s.nextHandle
    · rw [hkn, World.insert_cells_self] at hj
      cases hj
    · change (Function.update s.cells s.nextHandle _ k).holder = some j at hj
      rw [update_of_ne hkn] at hj
      exact holders_update hI (by rw [hv]; rfl) k j hj
  · rintro k dir' ⟨⟩ hdir' _
    have hsame := hdir.symm.trans hdir'
    cases hsame
    rw [World.insert_cells_self]
    exact hholds
  · intro k _ hgone
    have hsame := hdir.symm.trans hgone
    cases hsame

theorem Inv.rollback {h : Handle} (hv : V i = .found h)
    (hs : s.sessions = some h) (hdir : s.disk.dir ≠ none) :
    Inv { s with sessions := none } (Function.update V i .rolling) := by
  have hnotowner : ∀ j, ¬ (V j).owns := by
    intro j hj
    have hnone := (hI.owner hj).1
    rw [hs] at hnone
    cases hnone
  refine { knows := ?_, published := nofun, forwarders := hI.forwarders,
           holders := holders_update hI (by rw [hv]; rfl), current := nofun, missing := nofun,
           orphan := fun _ _ => ?_, unique := unique_of_not_owns hnotowner _ }
  · exact knows_update hI ⟨rfl, hdir⟩ fun j _ => ⟨le_rfl, fun _ _ hholder => ⟨hholder, rfl⟩,
      fun _ _ h => (by cases h), fun _ _ _ => .inl rfl, fun _ _ h => h, fun _ => ⟨rfl, rfl⟩⟩
  · exact ⟨i, by rw [update_self]; trivial⟩

theorem Inv.rollbackDelete (hv : V i = .rolling) {disk : Disk}
    (hdisk : disk.dir = none) :
    Inv { s with disk := disk } (Function.update V i .idle) := by
  have hk := hI.knows i
  rw [hv] at hk
  have howner : ∀ j, (V j).owns → j = i := fun j hj => hI.unique j hj i (by rw [hv]; trivial)
  have hsome : ∀ {P : Prop} {h : Handle}, s.sessions = some h → P := by
    intro P h h'
    rw [hk.1] at h'
    cases h'
  refine { knows := ?_, published := hI.published, forwarders := hI.forwarders,
           holders := holders_update hI (by rw [hv]; rfl), current := fun _ _ h => hsome h,
           missing := fun _ h => hsome h, orphan := fun _ h => absurd hdisk h,
           unique := unique_update hI not_false }
  exact knows_update hI trivial fun j hj => ⟨le_rfl, fun _ _ hholder => ⟨hholder, rfl⟩,
    fun _ _ h => h, fun _ _ _ => .inr hdisk, fun _ _ _ => hdisk,
    fun hown => absurd (howner j hown) hj⟩

end

end Steps

end Artel.StoreAgreement
