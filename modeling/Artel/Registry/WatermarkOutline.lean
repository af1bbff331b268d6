import Artel.Registry.WatermarkInvariant

namespace Artel.Watermark

open Store Registry Artel.Fiber Function

/-- The epoch that a call writes into the record with an action of that label. -/
def written : MirrorCall → Label → Option UInt64
  | .join ticket _, .create => some ticket.hostEpoch
  | .beacon _ _ _ hostEpoch _, .write _ => some hostEpoch
  | _, _ => none

/-- A store operation that fails leaves the record as it was or as it was to be written. -/
def Stands (epoch : Option UInt64) (disk disk' : Disk) : Prop :=
  (storedMeta disk').map stamp = (storedMeta disk).map stamp ∨
    ∃ e ∈ epoch, (storedMeta disk').map stamp = some (.Remote, e)

/-- The label of the action with which a failed join takes its mirror back. -/
def deletes : Label → Bool
  | .rollback _ => true
  | _ => false

/-- Metas are rewritten whole, and no join overwrites a later epoch. -/
def Guard (o : MirrorCall) (l : Label) (e : Env) (w : World × Marks) : Prop :=
  (∀ x ∈ e.fault, Stands (written o l) w.1.disk x.2) ∧ deletes l = false ∧
    (l = .create → ∀ epoch ∈ written o l, ∀ doc ∈ storedMeta w.1.disk, doc.hostEpoch ≤ epoch)

variable {floor : UInt64} {i : ℕ} {o : MirrorCall}

abbrev Outline (floor : UInt64) {α : Type} (i : ℕ) (o : MirrorCall) (Q : α → View → Prop)
    (a : Async α) (v : View) : Prop :=
  Follows (Inv floor) (Guard o) i Q (a.observe (Marks.note i)) v

def silent : Label → Bool
  | .lock _ => false
  | .spawn => false
  | _ => true

theorem note_silent {l : Label} (hl : silent l = true) (e : Env) (s s' : World) (m : Marks) :
    Marks.note i l e s s' m = m := by
  cases l with
  | lock h => cases hl
  | spawn => cases hl
  | _ => rfl

section Primitives

variable {l : Label} (v : View)

theorem outline_silent {α : Type} {ready : Env → World → Bool}
    {f : Env → World → α × World} (hl : silent l = true)
    (hf : ∀ e s, (f e s).2.sessions = s.sessions ∧ (f e s).2.nextHandle = s.nextHandle ∧
      (∀ k, ((f e s).2.cells k).session = (s.cells k).session ∧
        ((f e s).2.cells k).holder = (s.cells k).holder) ∧
      (f e s).2.disk = s.disk ∧ ∀ h ∈ (f e s).2.forwarders, h ∈ s.forwarders) :
    Outline floor i o (fun _ w => w = v) (waitFor l ready f) v := by
  apply Follows.waitForObserve
  intro s m V e hI hv _ _
  obtain ⟨hsessions, hnext, hcells, hdisk, hforwarders⟩ := hf e s
  rw [note_silent hl]
  refine ⟨v, ?_, rfl⟩
  rw [← hv, update_eq_self]
  exact hI.elsewhere hsessions hnext hcells hdisk hforwarders

theorem outline_tables {α : Type} {ready : Env → World → Bool}
    {f : Env → World → α × World} (hl : silent l = true)
    (hf : ∀ e s, (f e s).2.sessions = s.sessions ∧ (f e s).2.nextHandle = s.nextHandle ∧
      (f e s).2.cells = s.cells ∧ (f e s).2.disk = s.disk ∧
      ∀ h ∈ (f e s).2.forwarders, h ∈ s.forwarders) :
    Outline floor i o (fun _ w => w = v) (waitFor l ready f) v := by
  apply outline_silent v hl
  intro e s
  obtain ⟨hsessions, hnext, hcells, hdisk, hforwarders⟩ := hf e s
  exact ⟨hsessions, hnext, fun k => by rw [hcells]; exact ⟨rfl, rfl⟩, hdisk, hforwarders⟩

theorem outline_emit (k : Handle) (event : Event) (v : View) :
    Outline floor i o (fun _ w => w = v) (emit k event) v := by
  apply outline_silent v rfl
  intro e s
  refine ⟨rfl, rfl, fun k' => ?_, rfl, fun _ h => h⟩
  by_cases hk : k' = k
  · subst hk
    rw [World.modify_cells_self]
    exact ⟨rfl, rfl⟩
  · rw [World.modify_cells_of_ne _ _ hk]
    exact ⟨rfl, rfl⟩

theorem outline_lookupAs (hl : silent l = true) (v : View) :
    Outline floor i o
      (fun a w => a = none ∧ v.mirror = none ∧ w = v ∨
        ∃ h, a = some h ∧ w = { v with known := some h, mirror := some h })
      (lookupAs l) v := by
  apply Follows.waitForObserve
  intro s m V e hI hv _ _
  have hi := hI.knows i
  rw [hv] at hi
  rw [note_silent hl]
  cases hs : s.sessions with
  | none =>
    have hnone : v.mirror = none := by
      cases hm : v.mirror with
      | none => rfl
      | some h => exact absurd ((hi.mirror h hm).symm.trans hs) nofun
    refine ⟨v, ?_, .inl ⟨rfl, hnone, rfl⟩⟩
    rwa [← hv, update_eq_self]
  | some h =>
    refine ⟨{ v with known := some h, mirror := some h },
      hI.learn ⟨hi.grip, ?_, ?_, hi.stored, hi.reached, hi.seed⟩, .inr ⟨h, rfl, rfl⟩⟩
    · rintro k ⟨⟩
      exact (hI.mirror h hs).1
    · rintro k ⟨⟩
      exact hs

theorem outline_store {α : Type} {op : Disk → IoResult α}
    (hl : silent l = true) (hwritten : written o l = none)
    (hop : ∀ disk, (storedMeta (op disk).2).map stamp = (storedMeta disk).map stamp) :
    Outline floor i o (fun _ w => w = v) (store l op) v := by
  apply Follows.onceObserve
  intro s m V e hI hv hguard
  rw [note_silent hl]
  refine ⟨v, ?_, rfl⟩
  rw [← hv, update_eq_self]
  cases he : e.fault with
  | none => exact hI.store_stamp (hop s.disk)
  | some x =>
    apply hI.store_stamp
    have hstands := hguard.1 _ he
    rw [hwritten] at hstands
    exact hstands.resolve_right nofun

variable {h : Handle}

theorem outline_lock (hknown : v.known = some h)
    (hmirror : ∀ k, v.mirror = some k → k = h) :
    Outline floor i o
      (fun x w => w = { v with
          grip := some (h, x)
          stored := none
          seed := v.mirror.map fun k => (k, x.hostEpoch) } ∧
        (v.mirror = some h → x.kind = .Remote))
      (lock i h) v := by
  apply Follows.waitForObserve
  intro s m V e hI hv hready _
  have hi := hI.knows i
  rw [hv] at hi
  have hlt := hi.known h hknown
  have hfree : (s.cells h).holder = none := Option.isNone_iff_eq_none.mp hready
  have hrest := hi.modify (h := h) (f := fun c => { c with holder := some i })
    (fun k hk => (hI.mirror k hk).1) (UInt64.le_refl _)
  refine ⟨_, ?_, rfl, fun hm => (hI.mirror h (hi.mirror h hm)).2.1⟩
  refine hI.modify (h := h) (f := fun c => { c with holder := some i }) rfl (UInt64.le_refl _)
    (fun hs => (hI.mirror h hs).2.2.2) ?_ rfl ?_ ?_
  · rintro j - k x hk rfl
    have hheld := ((hI.knows j).grip k x hk).1
    exact absurd (hheld.symm.trans hfree) nofun
  · exact fun j hj => update_of_ne hj _ _
  · refine ⟨?_, hrest.known, hrest.mirror, nofun, hrest.reached, ?_⟩
    · rintro k x ⟨⟩
      rw [World.modify_cells_self]
      exact ⟨rfl, rfl, hlt⟩
    · intro k epoch hk
      obtain ⟨k', hk', heq⟩ := Option.map_eq_some_iff.mp hk
      obtain rfl := hmirror k' hk'
      obtain ⟨rfl, rfl⟩ := Prod.mk.inj heq
      have hs := hi.mirror k' hk'
      refine ⟨update_self .., hs, (hI.mirror k' hs).2.2.1, ?_⟩
      rw [World.modify_cells_self]
      exact UInt64.le_refl _

theorem outline_unlock {x : Session} (reached : Option UInt64)
    (hgrip : v.grip = some (h, x)) (hreached : ∀ epoch, reached = some epoch →
      v.mirror = some h ∧ epoch ≤ x.hostEpoch) :
    Outline floor i o (fun _ w => w = { v with grip := none, stored := none, reached := reached })
      (unlock h) v := by
  apply Follows.onceObserve
  intro s m V e hI hv _
  have hi := hI.knows i
  rw [hv] at hi
  have hrest := hi.modify (h := h) (f := fun c => { c with holder := none })
    (fun k hk => (hI.mirror k hk).1) (UInt64.le_refl _)
  refine ⟨_, ?_, rfl⟩
  refine hI.modify (h := h) (f := fun c => { c with holder := none }) rfl (UInt64.le_refl _)
    (fun hs => (hI.mirror h hs).2.2.2) ?_ rfl (fun _ _ => rfl) ?_
  · intro j hj k y hk
    exact hi.grip_ne (hI.knows j) hj hgrip hk
  · refine ⟨nofun, hrest.known, hrest.mirror, nofun, fun epoch hepoch => ?_, hrest.seed⟩
    obtain ⟨hmirror, hle⟩ := hreached epoch hepoch
    refine ⟨h, hi.mirror h hmirror, ?_⟩
    rw [World.modify_cells_self]
    exact UInt64.le_trans hle ((hi.grip h x hgrip).2.1 ▸ UInt64.le_refl _)

theorem outline_update {x : Session} {f : Session → Session}
    (hgrip : v.grip = some (h, x)) (hkind : (f x).kind = x.kind)
    (hepoch : (f x).hostEpoch = x.hostEpoch ∨
      x.hostEpoch ≤ (f x).hostEpoch ∧ v.stored = some (f x).hostEpoch) :
    Outline floor i o (fun _ w => w = { v with grip := some (h, f x), stored := none })
      (update h f) v := by
  apply Follows.onceObserve
  intro s m V e hI hv _
  have hi := hI.knows i
  rw [hv] at hi
  obtain ⟨hheld, rfl, hlt⟩ := hi.grip h x hgrip
  have hle : (s.cells h).session.hostEpoch ≤ (f (s.cells h).session).hostEpoch := by
    rcases hepoch with heq | ⟨hle, -⟩
    · rw [heq]
      exact UInt64.le_refl _
    · exact hle
  have hrest := hi.modify (h := h) (f := fun c => { c with session := f c.session })
    (fun k hk => (hI.mirror k hk).1) hle
  refine ⟨_, ?_, rfl⟩
  refine hI.modify (h := h) (f := fun c => { c with session := f c.session }) hkind hle (fun hs => ?_)
    ?_ rfl (fun _ _ => rfl) ?_
  · rcases hepoch with heq | ⟨-, hstored⟩
    · dsimp only
      rw [heq]
      exact (hI.mirror h hs).2.2.2
    · apply hi.stored _ hstored
      intro k hk
      obtain rfl := Option.some.inj (hs.symm.trans hk)
      exact ⟨_, hgrip⟩
  · intro j hj k y hk
    exact hi.grip_ne (hI.knows j) hj hgrip hk
  · refine ⟨?_, hrest.known, hrest.mirror, nofun, hrest.reached, hrest.seed⟩
    rintro k y ⟨⟩
    rw [World.modify_cells_self]
    exact ⟨hheld, rfl, hlt⟩

theorem outline_record {op : Disk → IoResult Unit} {epoch : UInt64}
    (hl : silent l = true) (hwritten : written o l = some epoch) (hop : ∀ s m V, Inv floor (s, m) V →
      V i = v → (op s.disk).1 = .ok () ∧ (storedMeta (op s.disk).2).map stamp = some (.Remote, epoch))
    (hcase : l = .create ∨ ∃ h x, v.grip = some (h, x) ∧ v.mirror = some h ∧ x.hostEpoch ≤ epoch) :
    Outline floor i o
      (fun a w => a = .ok () ∧ w = { v with stored := some epoch } ∧ (l = .create → floor ≤ epoch) ∨
        ∃ err, a = .error err ∧ w = { v with stored := none })
      (store l op) v := by
  apply Follows.onceObserve
  intro s m V e hI hv hguard
  rw [note_silent hl]
  have hlow : l = .create → ∀ doc, storedMeta s.disk = some doc → doc.hostEpoch ≤ epoch :=
    fun hcreate => hguard.2.2 hcreate epoch hwritten
  have hrecord : ∀ disk, (storedMeta disk).map stamp = some (.Remote, epoch) →
      Inv floor ({ s with disk := disk }, m) (update V i { v with stored := some epoch }) :=
    fun disk hdisk => hI.store_record hv hdisk (hcase.imp_left hlow)
  cases he : e.fault with
  | none =>
    obtain ⟨hok, hdisk⟩ := hop s m V hI hv
    refine ⟨_, hrecord _ hdisk, .inl ⟨hok, rfl, fun hcreate => ?_⟩⟩
    by_cases hfloor : floor = 0
    · rw [hfloor]
      exact UInt64.zero_le
    · obtain ⟨doc, hdoc, hle⟩ := hI.stored hfloor
      exact UInt64.le_trans hle (hlow hcreate doc hdoc)
  | some x =>
    obtain ⟨err, disk⟩ := x
    refine ⟨{ v with stored := none }, ?_, .inr ⟨err, rfl, rfl⟩⟩
    have hwrote : ∃ V', Inv floor ({ s with disk := disk }, m) V' ∧ ∃ stored,
        V' = update V i { v with stored := stored } := by
      rcases hguard.1 _ he with hsame | ⟨epoch', hepoch', hdisk⟩
      · refine ⟨_, hI.store_stamp hsame, v.stored, ?_⟩
        rw [← hv, update_eq_self]
      · obtain rfl := Option.some.inj (hwritten.symm.trans hepoch')
        exact ⟨_, hrecord disk hdisk, some epoch, rfl⟩
    obtain ⟨V', hV', stored, rfl⟩ := hwrote
    have hi := hV'.knows i
    rw [update_self] at hi
    have hlearn := hV'.learn (i := i) (v := { v with stored := none })
      ⟨hi.grip, hi.known, hi.mirror, nofun, hi.reached, hi.seed⟩
    rwa [update_idem] at hlearn

theorem outline_claimSlot {session : Session} (hkind : session.kind = .Remote)
    (hfloor : floor ≤ session.hostEpoch) (hstored : v.stored = some session.hostEpoch) :
    Outline floor i o
      (fun a w => ∃ h, (a = .inl h ∨ a = .inr h) ∧ w = ⟨none, some h, some h, none, none, none⟩)
      (claimSlot session) v := by
  apply Follows.waitForObserve
  intro s m V e hI hv _ _
  have hi := hI.knows i
  rw [hv] at hi
  cases hs : s.sessions with
  | some h =>
    refine ⟨_, ?_, h, .inl rfl, rfl⟩
    refine hI.learn ⟨nofun, ?_, ?_, nofun, nofun, nofun⟩
    · rintro k ⟨⟩
      exact (hI.mirror h hs).1
    · rintro k ⟨⟩
      exact hs
  | none =>
    have hcells : ∀ k, k < s.nextHandle → (s.insert session).cells k = s.cells k :=
      fun k hk => World.insert_cells_of_lt s session hk
    obtain ⟨doc, hdoc, hle⟩ := hi.stored _ hstored fun h hh => absurd (hs.symm.trans hh) nofun
    have hf : Forward s { s.insert session with
        pendingRemoteJoins := some s.nextHandle
        watches := update s.watches s.nextHandle none } := by
      refine ⟨fun h hh => absurd (hs.symm.trans hh) nofun, Nat.le_succ _, fun h hh => ?_⟩
      rw [hcells h hh]
      exact UInt64.le_refl _
    refine ⟨_, ?_, s.nextHandle, .inr rfl, rfl⟩
    refine hI.step hf (fun h hh => ?_) hI.remote (fun h hh => ?_) (hI.live_forward hf)
      (fun _ => Raised.refl _) (fun j _ k x hk => ?_) (fun _ _ => rfl) ?_
    · obtain rfl := Option.some.inj hh
      rw [World.insert_cells_self]
      exact ⟨Nat.lt_succ_self _, hkind, hfloor, doc, hdoc, hle⟩
    · exact Nat.lt_succ_of_lt (hI.forwarders h hh)
    · dsimp only
      rw [hcells k ((hI.knows j).grip k x hk).2.2]
      exact ⟨rfl, rfl⟩
    · refine ⟨nofun, ?_, ?_, nofun, nofun, nofun⟩
      · rintro k ⟨⟩
        exact Nat.lt_succ_self _
      · rintro k ⟨⟩
        rfl

theorem outline_spawn {epoch : UInt64} (hknown : v.known = some h)
    (hseed : v.seed = some (h, epoch)) :
    Outline floor i o (fun _ w => w = v) (spawn (some h)) v := by
  apply Follows.onceObserve
  intro s m V e hI hv _
  have hi := hI.knows i
  rw [hv] at hi
  have hf : Forward s { s with forwarders := s.forwarders ++ [h] } :=
    ⟨fun _ hh => hh, Nat.le_refl _, fun _ _ => UInt64.le_refl _⟩
  refine ⟨v, ?_, rfl⟩
  refine hI.step hf hI.mirror hI.remote (fun k hk => ?_) (fun j k e hj => ?_)
    (fun _ => Raised.refl _) (fun _ _ _ _ _ => ⟨rfl, rfl⟩) (fun _ _ => rfl)
    ⟨hi.grip, hi.known, hi.mirror, hi.stored, hi.reached, hi.seed⟩
  · rcases List.mem_append.mp hk with hold | hnew
    · exact hI.forwarders k hold
    · rw [List.mem_singleton.mp hnew]
      exact hi.known h hknown
  · have hlive : update m.live i (m.seeds i) j = some (k, e) := hj
    by_cases hji : j = i
    · rw [hji, update_self, (hi.seed h epoch hseed).1] at hlive
      obtain ⟨rfl, rfl⟩ := Prod.mk.inj (Option.some.inj hlive)
      exact (hi.seed h epoch hseed).2
    · rw [update_of_ne hji] at hlive
      exact hI.live j k e hlive

theorem abort_forwarders (feeds : Option Handle) (s : World) :
    (abort feeds s).sessions = s.sessions ∧ (abort feeds s).nextHandle = s.nextHandle ∧
      (abort feeds s).cells = s.cells ∧ (abort feeds s).disk = s.disk ∧
      ∀ h ∈ (abort feeds s).forwarders, h ∈ s.forwarders := by
  cases feeds with
  | none => exact ⟨rfl, rfl, rfl, rfl, fun _ h => h⟩
  | some k => exact ⟨rfl, rfl, rfl, rfl, fun _ h => List.mem_of_mem_erase h⟩

theorem outline_subscribeInner {epoch : UInt64} (hknown : v.known = some h)
    (hseed : v.seed = some (h, epoch)) :
    Outline floor i o (fun _ w => w = v) (subscribeInner h (some h)) v := by
  refine (outline_tables v rfl fun e s => ?_).bindObserve ?_
  · split <;> exact ⟨rfl, rfl, rfl, rfl, fun _ h => h⟩
  rintro reservation w rfl
  cases reservation with
  | none => exact rfl
  | some generation =>
    apply (outline_tables w rfl fun e s => ⟨rfl, rfl, rfl, rfl, fun _ h => h⟩).bindObserve
    rintro result w' rfl
    cases result with
    | some err =>
      refine (outline_tables w' rfl fun e s => ?_).bindObserve fun _ _ hw => hw
      split <;> exact ⟨rfl, rfl, rfl, rfl, fun _ h => h⟩
    | none =>
      apply (outline_spawn w' hknown hseed).bindObserve
      rintro _ w'' rfl
      refine (outline_tables w'' rfl fun e s => ?_).bindObserve fun _ _ hw => hw
      split
      · exact ⟨rfl, rfl, rfl, rfl, fun _ h => h⟩
      · exact abort_forwarders _ _

end Primitives

section Calls

abbrev View.at (h : Handle) : View := ⟨none, some h, some h, none, none, none⟩

theorem outline_joinMember {h : Handle} (v : View) (hknown : v.known = some h)
    (hmirror : ∀ k, v.mirror = some k → k = h) (peer : PeerInfo)
    (hwritten : ∀ k, written o (.write k) = none) :
    Outline floor i o (fun _ _ => True) (joinMember i h peer) v := by
  unfold joinMember
  simp only [bind_eq, pure_eq]
  apply (outline_lock v hknown hmirror).bindObserve
  rintro x w ⟨rfl, -⟩
  split
  · exact (outline_unlock _ none rfl nofun).bindObserve fun _ _ _ => trivial
  apply (outline_store _ rfl (hwritten h) (stamp_updateMembers _)).bindObserve
  rintro result w rfl
  cases result with
  | error err => exact (outline_unlock _ none rfl nofun).bindObserve fun _ _ _ => trivial
  | ok u =>
    apply (outline_update _ rfl rfl (.inl rfl)).bindObserve
    rintro _ w rfl
    apply (outline_emit h _ _).bindObserve
    rintro _ w rfl
    exact (outline_unlock _ none rfl nofun).bindObserve fun _ _ _ => trivial

theorem outline_inbound (ed : Ed25519) (h : Handle) (m : SessionMessage)
    (hwritten : ∀ k, written o (.write k) = none) :
    Outline floor i o (fun _ _ => True) (inbound ed i h m) View.idle := by
  refine Follows.bindObserve (Q := fun _ w => w = { View.idle with known := some h }) ?_ ?_
  · apply Follows.waitForObserve
    intro s m V e hI hv hready _
    refine ⟨_, ?_, rfl⟩
    refine hI.learn ⟨nofun, ?_, nofun, nofun, nofun, nofun⟩
    rintro k ⟨⟩
    exact hI.forwarders h (of_decide_eq_true hready)
  rintro _ w rfl
  apply (outline_lock { View.idle with known := some h } rfl nofun).bindObserve
  rintro x w ⟨rfl, -⟩
  cases mirrorAccepts ed x m with
  | none => exact (outline_unlock _ none rfl nofun).bindObserve fun _ _ _ => trivial
  | some pos =>
    apply (outline_store _ rfl (hwritten h) (stamp_append m)).bindObserve
    rintro result w rfl
    cases result with
    | error err => exact (outline_unlock _ none rfl nofun).bindObserve fun _ _ _ => trivial
    | ok u =>
      apply (outline_update _ rfl rfl (.inl rfl)).bindObserve
      rintro _ w rfl
      split
      · exact (outline_unlock _ none rfl nofun).bindObserve fun _ _ _ => trivial
      · apply (outline_emit h _ _).bindObserve
        rintro _ w rfl
        exact (outline_unlock _ none rfl nofun).bindObserve fun _ _ _ => trivial

theorem outline_resubscribe (id : SessionId) :
    Outline floor i o (fun _ _ => True) (resubscribeRemoteMirror id i) View.idle := by
  apply (outline_lookupAs rfl _).bindObserve
  rintro _ w (⟨rfl, -, rfl⟩ | ⟨h, rfl, rfl⟩)
  · exact trivial
  apply (outline_lock _ rfl fun k hk => (Option.some.inj hk).symm).bindObserve
  rintro x w ⟨rfl, -⟩
  apply (outline_unlock _ none rfl nofun).bindObserve
  rintro _ w rfl
  apply (outline_subscribeInner _ rfl rfl).bindObserve
  rintro result w -
  cases result <;> exact trivial

theorem outline_advance {h : Handle} {epoch : UInt64} (hwritten : ∀ k, written o (.write k) = some epoch) :
    Outline floor i o (fun a w => ∀ r, a = .ok r → w.reached = some epoch)
      (advanceHostEpochWatermark i epoch) (View.at h) := by
  apply (outline_lookupAs rfl _).bindObserve
  rintro _ w (⟨-, hnone, -⟩ | ⟨k, rfl, rfl⟩)
  · cases hnone
  apply (outline_lock _ rfl fun k' hk => (Option.some.inj hk).symm).bindObserve
  rintro x w ⟨rfl, hremote⟩
  split
  · rename_i hskip
    have hle : epoch ≤ x.hostEpoch := hskip.resolve_left fun hkind => hkind (hremote rfl)
    apply (outline_unlock _ (some epoch) rfl fun e he => ⟨rfl, ?_⟩).bindObserve
    · rintro _ w rfl _ -
      rfl
    · rw [← Option.some.inj he]
      exact hle
  · rename_i hnew
    have hle : x.hostEpoch ≤ epoch :=
      UInt64.le_of_lt (UInt64.not_le.mp fun hold => hnew (.inr hold))
    refine (outline_record _ rfl (hwritten k) (fun s m V hI hv => ?_)
      (.inr ⟨k, x, rfl, rfl, hle⟩)).bindObserve ?_
    · have hi := hI.knows i
      rw [hv] at hi
      obtain ⟨-, -, -, doc, hdoc, -⟩ := hI.mirror k (hi.mirror k rfl)
      refine ⟨bumpHostEpoch_ok epoch s.disk, ?_⟩
      rw [storedMeta_bumpHostEpoch epoch hdoc, Option.map_some, stamp, hI.remote doc hdoc]
    · rintro _ w (⟨rfl, rfl, -⟩ | ⟨err, rfl, rfl⟩)
      · apply (outline_update _ rfl rfl (.inr ⟨hle, rfl⟩)).bindObserve
        rintro _ w rfl
        apply (outline_unlock _ (some epoch) rfl fun e he => ⟨rfl, ?_⟩).bindObserve
        · rintro _ w rfl _ -
          rfl
        · rw [← Option.some.inj he]
          exact UInt64.le_refl _
      · exact (outline_unlock _ none rfl nofun).bindObserve fun _ _ _ _ hr => nomatch hr

theorem outline_claimRemoteMirror (id : SessionId) (host : PeerId) {hostEpoch : UInt64}
    (hwritten : written o .create = some hostEpoch) :
    Outline floor i o
      (fun a w => (∃ err, a = .error err) ∨
        ∃ h claim, a = .ok claim ∧ (claim = .fresh h ∨ ∃ outcome, claim = .adopted h outcome) ∧
          w = View.at h)
      (claimRemoteMirror id host hostEpoch) View.idle := by
  have hadopt : ∀ h, Outline floor i o
      (fun (a : Except SessionError MirrorClaim) w => (∃ err, a = .error err) ∨
        ∃ h claim, a = .ok claim ∧ (claim = .fresh h ∨ ∃ outcome, claim = .adopted h outcome) ∧
          w = View.at h)
      ((adoptClaim h).bind fun claim => .ret (.ok claim)) (View.at h) := by
    intro h
    refine Follows.bindObserve (Q := fun a w => w = View.at h ∧ ∃ outcome, a = .adopted h outcome) ?_ ?_
    · apply Follows.onceObserve
      intro s m V e hI hv _
      refine ⟨View.at h, ?_, rfl, s.pendingRemoteJoins, rfl⟩
      rwa [← hv, update_eq_self]
    · rintro claim w ⟨rfl, houtcome⟩
      exact .inr ⟨h, claim, rfl, .inr houtcome, rfl⟩
  apply (outline_lookupAs rfl _).bindObserve
  rintro _ w (⟨rfl, -, rfl⟩ | ⟨h, rfl, rfl⟩)
  · refine (outline_record _ rfl hwritten (fun s m V _ _ => ⟨?_, ?_⟩)
      (.inl rfl)).bindObserve ?_
    · rfl
    · rw [storedMeta_create]
      rfl
    rintro _ w (⟨rfl, rfl, hfloor⟩ | ⟨err, rfl, rfl⟩)
    · apply (outline_claimSlot _ rfl (hfloor rfl) rfl).bindObserve
      rintro _ w ⟨h, rfl | rfl, rfl⟩
      · exact hadopt h
      · exact .inr ⟨h, .fresh h, rfl, .inl rfl, rfl⟩
    · exact .inl ⟨_, rfl⟩
  · exact hadopt h

def Joins (a : Except SessionError Handle) (w : View) : Prop :=
  ∀ h, a = .ok h → w.known = some h ∧ ∀ k, w.mirror = some k → k = h

theorem outline_driveSubscribe (h : Handle) :
    Outline floor i o Joins (driveSubscribe i h) (View.at h) := by
  apply (outline_lock _ rfl fun k hk => (Option.some.inj hk).symm).bindObserve
  rintro x w ⟨rfl, -⟩
  apply (outline_unlock _ none rfl nofun).bindObserve
  rintro _ w rfl
  have hfinish : ∀ (ok : Bool) (a : Except SessionError Handle) (v : View), Joins a v →
      Outline floor i o Joins ((finish h ok).bind fun _ => .ret a) v := by
    intro ok a v hv
    refine Follows.bindObserve (Q := fun _ w => w = v) ?_ fun _ _ hw => hw ▸ hv
    apply (outline_tables v rfl fun e s => ⟨rfl, rfl, rfl, rfl, fun _ h => h⟩).bindObserve
    rintro _ w rfl
    exact outline_tables w rfl fun e s => ⟨rfl, rfl, rfl, rfl, fun _ h => h⟩
  refine Follows.bindObserve (Q := fun _ w => w = ⟨none, some h, some h, none, none,
    some (h, x.hostEpoch)⟩) ?_ ?_
  · unfold joinSession
    apply (outline_subscribeInner _ rfl rfl).bindObserve
    rintro result w rfl
    exact outline_tables _ rfl fun e s => ⟨rfl, rfl, rfl, rfl, fun _ h => h⟩
  rintro result w rfl
  cases result with
  | none =>
    apply hfinish
    rintro k ⟨⟩
    exact ⟨rfl, fun _ hm => (Option.some.inj hm).symm⟩
  | some err =>
    refine Follows.bindObserve (Q := fun _ _ => True) ?_ fun _ _ _ => hfinish false _ _ nofun
    refine Follows.bindObserve (Q := fun _ _ => False) ?_ fun _ _ hfalse => hfalse.elim
    -- the mirror is not deleted
    apply Follows.waitForObserve
    intro s m V e _ _ _ hguard
    exact absurd hguard.2.1 nofun

theorem outline_materialise {ed : Ed25519} (d : Daemon ed) (id : SessionId) (ticket : SessionTicket)
    (hwritten : written o .create = some ticket.hostEpoch) :
    Outline floor i o Joins (materialiseRemoteSession d id i ticket) View.idle := by
  unfold materialiseRemoteSession
  split
  · exact nofun
  apply (outline_claimRemoteMirror id ticket.hostPeerId hwritten).bindObserve
  have hat : ∀ h, Joins (.ok h) (View.at h) := by
    rintro h k ⟨⟩
    exact ⟨rfl, fun _ hm => (Option.some.inj hm).symm⟩
  rintro _ w (⟨err, rfl⟩ | ⟨h, _, rfl, rfl | ⟨outcome, rfl⟩, rfl⟩)
  · exact nofun
  · exact outline_driveSubscribe h
  cases outcome with
  | none => exact hat h
  | some k =>
    apply Follows.waitForObserve
    intro s m V e hI hv _ _
    refine ⟨View.at h, ?_, ?_⟩
    · rwa [← hv, update_eq_self]
    · dsimp only
      split
      · exact hat h
      · exact nofun

theorem outline_join {ed : Ed25519} (d : Daemon ed) (id : SessionId) (ticket : SessionTicket)
    (peer : PeerInfo) (hcreate : written o .create = some ticket.hostEpoch)
    (hwrite : ∀ k, written o (.write k) = none) :
    Outline floor i o (fun _ _ => True) (join d id i ticket peer) View.idle := by
  apply (outline_lookupAs rfl _).bindObserve
  rintro _ w (⟨rfl, -, rfl⟩ | ⟨h, rfl, rfl⟩)
  · dsimp only
    split
    · exact trivial
    · apply (outline_materialise d id ticket hcreate).bindObserve
      rintro result w hresult
      cases result with
      | error err => exact trivial
      | ok h => exact outline_joinMember w (hresult h rfl).1 (hresult h rfl).2 peer hwrite
  · exact outline_joinMember _ rfl (fun k hk => (Option.some.inj hk).symm) peer hwrite

theorem max_between {low a b high : UInt64} (hlow : low ≤ a) (ha : a ≤ high) (hb : b ≤ high) :
    low ≤ max a b ∧ max a b ≤ high := by
  show low ≤ (if a ≤ b then b else a) ∧ (if a ≤ b then b else a) ≤ high
  split
  · rename_i hle
    exact ⟨UInt64.le_trans hlow hle, hb⟩
  · exact ⟨hlow, ha⟩

theorem Inv.raise {s : World} {m : Marks} {V : ℕ → View} {v : View} {epoch : UInt64}
    (hI : Inv floor (s, m) V) (hv : V i = v) (hreached : v.reached = some epoch) (forwarder : ℕ) :
    Inv floor (s, m.raise forwarder epoch) (update V i v) := by
  have hi := hI.knows i
  rw [hv] at hi
  refine hI.step ⟨fun _ hh => hh, Nat.le_refl _, fun _ _ => UInt64.le_refl _⟩ hI.mirror hI.remote
    hI.forwarders (fun j h e hj => ?_) (fun _ => Raised.refl _) (fun _ _ _ _ _ => ⟨rfl, rfl⟩)
    (fun _ _ => rfl) ⟨hi.grip, hi.known, hi.mirror, hi.stored, hi.reached, hi.seed⟩
  have hlive : update m.live forwarder
      ((m.live forwarder).map fun x => (x.1, max x.2 epoch)) j = some (h, e) := hj
  by_cases hjf : j = forwarder
  · rw [hjf, update_self] at hlive
    obtain ⟨⟨h', e'⟩, hold, heq⟩ := Option.map_eq_some_iff.mp hlive
    obtain ⟨rfl, rfl⟩ := Prod.mk.inj heq
    obtain ⟨hs, hfloor, hle⟩ := hI.live forwarder h' e' hold
    obtain ⟨k, hk, hreach⟩ := hi.reached epoch hreached
    obtain rfl := Option.some.inj (hs.symm.trans hk)
    exact ⟨hs, max_between hfloor hle hreach⟩
  · rw [update_of_ne hjf] at hlive
    exact hI.live j h e hlive

theorem outline_beacon (ed : Ed25519) (id : SessionId) (mirror : Handle) (forwarder : ℕ) (host : PeerId)
    (hostEpoch : UInt64) (hostSig : SigBytes) (hwritten : ∀ k, written o (.write k) = some hostEpoch) :
    Follows (Inv floor) (Guard o) i (fun _ _ => True)
      (epochBeacon ed id i mirror forwarder host hostEpoch hostSig) View.idle := by
  unfold epochBeacon
  split
  · exact trivial
  apply Follows.waitFor
  intro s V e hI hv hready _
  refine ⟨View.at mirror, ?_, ?_⟩
  · obtain ⟨⟨h, epoch⟩, hlive, heq⟩ := (Option.any_eq_true _ _).mp hready
    obtain rfl : h = mirror := of_decide_eq_true heq
    have hs := (hI.live forwarder h epoch hlive).1
    refine hI.learn ⟨nofun, ?_, ?_, nofun, nofun, nofun⟩
    · rintro k ⟨⟩
      exact (hI.mirror h hs).1
    · rintro k ⟨⟩
      exact hs
  split
  · exact trivial
  apply (outline_advance hwritten).bind
  intro result w hw
  cases result with
  | error err => exact trivial
  | ok r =>
    apply Follows.once
    intro s V e hI hv _
    exact ⟨w, hI.raise hv (hw r rfl) forwarder, trivial⟩

end Calls

theorem outline_body {ed : Ed25519} (d : Daemon ed) (id : SessionId) (i : ℕ) (o : MirrorCall) :
    Follows (Inv floor) (Guard o) i (fun _ _ => True) (MirrorCall.body d id i o) View.idle := by
  cases o with
  | join ticket peer => exact outline_join d id ticket peer rfl fun _ => rfl
  | inbound mirror m => exact outline_inbound ed mirror m fun _ => rfl
  | resubscribe => exact outline_resubscribe id
  | beacon mirror forwarder host hostEpoch hostSig =>
    exact outline_beacon ed id mirror forwarder host hostEpoch hostSig fun _ => rfl

end Artel.Watermark
