import Artel.Registry.Coarse

namespace Artel.SlotAgreement

open Registry Function

/-- It may subscribe, has to subscribe or to finalize, or has to free the slot. -/
inductive View
  | idle
  | found (h : Handle) (feeds : Option Handle)
  | subscribing (h : Handle) (feeds : Option Handle)
  | reserved (h : Handle) (feeds : Option Handle) (generation : ℕ)
  | closing

def View.settled : View → Prop
  | .idle => True
  | .found _ _ => True
  | _ => False

def Feeds (s : World) (h : Handle) (feeds : Option Handle) : Prop :=
  (s.cells h).session.kind = .Remote → feeds = some h

def Knows (s : World) : View → Prop
  | .idle => True
  | .found h feeds => h < s.nextHandle ∧ Feeds s h feeds
  | .subscribing h feeds => h < s.nextHandle ∧ Feeds s h feeds
  | .reserved h feeds generation =>
    (h < s.nextHandle ∧ Feeds s h feeds) ∧ generation < s.nextSlotGeneration ∧
      (s.slot = some (.reserved generation) → ∀ k, s.sessions = some k → k = h)
  | .closing => True

structure Inv (s : World) (V : ℕ → View) : Prop where
  knows : ∀ i, Knows s (V i)
  bounded : ∀ h, s.sessions = some h → h < s.nextHandle
  live : ∀ feeds, s.slot = some (.live feeds) → ∀ h, s.sessions = some h → Feeds s h feeds
  unserved : ∀ h, s.sessions = some h → s.slot = none → ∃ i, ∃ feeds, V i = .subscribing h feeds
  owner : ∀ g, s.slot = some (.reserved g) → ∃ i, ∃ h feeds, V i = .reserved h feeds g
  closing : s.sessions = none → s.slot ≠ none → ∃ i, V i = .closing

/-- Slots are reserved and removed in step with the map, and no subscribe fails. -/
def Orderly : Label → Env → World → Prop
  | .gossip, e, _ => e.subscribeError = none
  | .reserve h, _, s => s.sessions = some h
  | .insert, _, s => s.slot = none
  | .claim, _, s => s.sessions = none → s.slot = none
  | .forget _, _, s => s.sessions = none
  | _, _, _ => True

structure Same (s' s : World) : Prop where
  sessions : s'.sessions = s.sessions
  slot : s'.slot = s.slot
  nextHandle : s'.nextHandle = s.nextHandle
  nextSlotGeneration : s'.nextSlotGeneration = s.nextSlotGeneration
  kind : ∀ h, (s'.cells h).session.kind = (s.cells h).session.kind

theorem Same.knows {s s' : World} (hs : Same s' s) {v : View} (hv : Knows s v) : Knows s' v := by
  obtain ⟨h1, h2, h3, h4, h5⟩ := hs
  cases v with
  | idle => trivial
  | closing => trivial
  | found h feeds | subscribing h feeds =>
    simp only [Knows, Feeds] at hv ⊢
    rwa [h3, h5]
  | reserved h feeds g =>
    simp only [Knows, Feeds] at hv ⊢
    rwa [h1, h2, h3, h4, h5]

theorem Inv.of_same {s s' : World} {V : ℕ → View} (hI : Inv s V) (hs : Same s' s) : Inv s' V := by
  have hknows : ∀ i, Knows s' (V i) := fun i => hs.knows (hI.knows i)
  obtain ⟨h1, h2, h3, h4, h5⟩ := hs
  refine ⟨hknows, ?_, ?_, ?_, ?_, ?_⟩
  · rw [h1, h3]
    exact hI.bounded
  · unfold Feeds
    simp only [h1, h2, h5]
    exact hI.live
  · rw [h1, h2]
    exact hI.unserved
  · rw [h2]
    exact hI.owner
  · rw [h1, h2]
    exact hI.closing

theorem coarse_inv : Coarse Inv where
  modify s V h f hI hf := by
    refine hI.of_same ⟨rfl, rfl, rfl, rfl, fun k => ?_⟩
    by_cases hk : k = h
    · rw [hk, World.modify_cells_self]
      exact hf _
    · rw [World.modify_cells_of_ne s f hk]
  disk _ _ _ hI := hI.of_same ⟨rfl, rfl, rfl, rfl, fun _ => rfl⟩
  forwarders _ _ _ hI := hI.of_same ⟨rfl, rfl, rfl, rfl, fun _ => rfl⟩

theorem joinBlind_inv : JoinBlind Inv where
  tables _ _ _ _ _ _ _ hI := hI.of_same ⟨rfl, rfl, rfl, rfl, fun _ => rfl⟩

section Steps

variable {s : World} {V : ℕ → View} {i : ℕ} {h : Handle} {feeds : Option Handle} {g : ℕ}

theorem knows_update {s' : World} {w : View} (hV : ∀ j, Knows s' (V j)) (hw : Knows s' w) (j : ℕ) :
    Knows s' (update V i w j) :=
  (forall_update_iff V fun _ v => Knows s' v).mpr ⟨hw, fun j _ => hV j⟩ j

section

variable (hI : Inv s V)
include hI

theorem Inv.knows_of_reserved {s' : World} (hnext : s'.nextHandle = s.nextHandle)
    (hcells : s'.cells = s.cells)
    (hres : ∀ h feeds g, Knows s (.reserved h feeds g) → Knows s' (.reserved h feeds g)) (j : ℕ) :
    Knows s' (V j) := by
  have hj := hI.knows j
  cases hvj : V j with
  | idle => trivial
  | closing => trivial
  | found k f | subscribing k f =>
    rw [hvj] at hj
    simp only [Knows, Feeds, hnext, hcells] at hj ⊢
    exact hj
  | reserved k f n =>
    rw [hvj] at hj
    exact hres k f n hj

theorem Inv.owner_update (hv : ∀ k f n, V i ≠ .reserved k f n) (w : View) :
    ∀ g, s.slot = some (.reserved g) →
      ∃ j, ∃ h feeds, update V i w j = .reserved h feeds g := by
  intro n hn
  apply exists_update (fun v : View => ∃ k f, v = .reserved k f n) (hI.owner n hn)
  rintro ⟨k, f, hf⟩
  exact hv k f n hf

theorem Inv.closing_update (hv : V i ≠ .closing) (w : View) :
    s.sessions = none → s.slot ≠ none → ∃ j, update V i w j = .closing :=
  fun hs hslot => exists_update (fun v : View => v = .closing) (hI.closing hs hslot) hv w

theorem Inv.setView (hv : (V i).settled) {w : View} (hw : Knows s w) :
    Inv s (update V i w) := by
  refine { hI with
    knows := knows_update hI.knows hw, unserved := ?_, owner := hI.owner_update ?_ w,
    closing := hI.closing_update ?_ w }
  · intro k hk hslot
    apply exists_update (fun v : View => ∃ f, v = .subscribing k f) (hI.unserved k hk hslot)
    rintro ⟨f, hf⟩
    rw [hf] at hv
    exact hv
  · intro k f n hf
    rw [hf] at hv
    exact hv
  · intro hf
    rw [hf] at hv
    exact hv

theorem Inv.reserve_taken (hv : V i = .subscribing h feeds) (hslot : s.slot ≠ none) :
    Inv { s with nextSlotGeneration := s.nextSlotGeneration + 1 }
      (update V i .idle) := by
  have hknows : ∀ j, Knows { s with nextSlotGeneration := s.nextSlotGeneration + 1 } (V j) :=
    hI.knows_of_reserved rfl rfl fun _ _ _ hr => ⟨hr.1, Nat.lt_succ_of_lt hr.2.1, hr.2.2⟩
  refine ⟨knows_update hknows trivial, hI.bounded, hI.live, ?_, hI.owner_update ?_ _,
    hI.closing_update ?_ _⟩
  · exact fun k _ hnone => absurd hnone hslot
  · rw [hv]
    exact fun k f n hk => by cases hk
  · rw [hv]
    exact fun hk => by cases hk

theorem Inv.reserve_free (hv : V i = .subscribing h feeds)
    (hs : s.sessions = some h) :
    Inv { s with
          slot := some (.reserved s.nextSlotGeneration)
          nextSlotGeneration := s.nextSlotGeneration + 1 }
      (update V i (.reserved h feeds s.nextSlotGeneration)) := by
  have hi := hI.knows i
  rw [hv] at hi
  have hknows : ∀ j, Knows { s with
      slot := some (.reserved s.nextSlotGeneration)
      nextSlotGeneration := s.nextSlotGeneration + 1 } (V j) := by
    refine hI.knows_of_reserved rfl rfl fun k f n hr => ?_
    refine ⟨hr.1, Nat.lt_succ_of_lt hr.2.1, fun hn => ?_⟩
    -- an older reservation has an older generation
    cases hn
    exact absurd hr.2.1 (lt_irrefl _)
  have hnew : ∀ k, s.sessions = some k → k = h := by
    intro k hk
    rw [hs] at hk
    cases hk
    rfl
  refine ⟨knows_update hknows ⟨hi, Nat.lt_succ_self _, fun _ => hnew⟩, hI.bounded, ?_, ?_, ?_, ?_⟩
  · exact fun f hf => by cases hf
  · exact fun k _ hnone => by cases hnone
  · intro n hn
    cases hn
    exact ⟨i, h, feeds, update_self ..⟩
  · intro hnone
    rw [hs] at hnone
    cases hnone

/-- A reservation that still stands becomes the live slot of the session it was made for. -/
theorem Inv.finalize_won (hv : V i = .reserved h feeds g)
    (hslot : s.slot = some (.reserved g)) :
    Inv { s with slot := some (.live feeds) } (update V i .idle) := by
  have hi := hI.knows i
  rw [hv] at hi
  have hknows : ∀ j, Knows { s with slot := some (.live feeds) } (V j) :=
    hI.knows_of_reserved rfl rfl fun _ _ _ hr => ⟨hr.1, hr.2.1, fun hn => by cases hn⟩
  refine ⟨knows_update hknows trivial, hI.bounded, ?_, ?_, ?_, ?_⟩
  · intro f hf k hk
    cases hf
    rw [hi.2.2 hslot k hk]
    exact hi.1.2
  · exact fun k _ hnone => by cases hnone
  · exact fun n hn => by cases hn
  · intro hs _
    refine hI.closing_update ?_ _ hs (by rw [hslot]; simp)
    rw [hv]
    exact fun hk => by cases hk

theorem Inv.finalize_lost (hv : V i = .reserved h feeds g)
    (hslot : s.slot ≠ some (.reserved g)) : Inv s (update V i .idle) := by
  refine { hI with
    knows := knows_update hI.knows trivial, unserved := ?_, owner := ?_,
    closing := hI.closing_update ?_ _ }
  · intro k hk hnone
    apply exists_update (fun v : View => ∃ f, v = .subscribing k f) (hI.unserved k hk hnone)
    rintro ⟨f, hf⟩
    rw [hv] at hf
    cases hf
  · intro n hn
    apply exists_update (fun v : View => ∃ k f, v = .reserved k f n) (hI.owner n hn)
    rintro ⟨k, f, hf⟩
    rw [hv] at hf
    cases hf
    exact hslot hn
  · rw [hv]
    exact fun hk => by cases hk

theorem Inv.insert (session : Session) (feeds : Option Handle)
    (hslot : s.slot = none) (hfeeds : session.kind = .Remote → feeds = some s.nextHandle) :
    Inv (s.insert session) (update V i (.subscribing s.nextHandle feeds)) := by
  have hold : ∀ k f, k < s.nextHandle ∧ Feeds s k f →
      k < s.nextHandle + 1 ∧ Feeds (s.insert session) k f := by
    rintro k f ⟨hk, hf⟩
    refine ⟨Nat.lt_succ_of_lt hk, ?_⟩
    unfold Feeds at hf ⊢
    rwa [World.insert_cells_of_lt s session hk]
  have hknows : ∀ j, Knows (s.insert session) (V j) := by
    intro j
    have hj := hI.knows j
    cases hvj : V j with
    | idle => trivial
    | closing => trivial
    | found k f =>
      rw [hvj] at hj
      exact hold k f hj
    | subscribing k f =>
      rw [hvj] at hj
      exact hold k f hj
    | reserved k f n =>
      rw [hvj] at hj
      refine ⟨hold k f hj.1, hj.2.1, fun hn => ?_⟩
      change s.slot = _ at hn
      rw [hslot] at hn
      cases hn
  have hnew : Knows (s.insert session) (.subscribing s.nextHandle feeds) := by
    refine ⟨Nat.lt_succ_self _, ?_⟩
    unfold Feeds
    rw [World.insert_cells_self]
    exact hfeeds
  refine ⟨knows_update hknows hnew, ?_, ?_, ?_, ?_, ?_⟩
  · intro k hk
    cases hk
    exact Nat.lt_succ_self _
  · intro f hf
    change s.slot = _ at hf
    rw [hslot] at hf
    cases hf
  · intro k hk _
    cases hk
    exact ⟨i, feeds, update_self ..⟩
  · intro n hn
    change s.slot = _ at hn
    rw [hslot] at hn
    cases hn
  · exact fun hs => by cases hs

theorem Inv.unpublish (hv : (V i).settled) :
    Inv { s with sessions := none } (update V i .closing) := by
  have hknows : ∀ j, Knows { s with sessions := none } (V j) :=
    hI.knows_of_reserved rfl rfl fun _ _ _ hr => ⟨hr.1, hr.2.1, fun _ _ hk => by cases hk⟩
  refine ⟨knows_update hknows trivial, ?_, ?_, ?_, hI.owner_update ?_ _, ?_⟩
  · exact fun k hk => by cases hk
  · exact fun _ _ k hk => by cases hk
  · exact fun k hk => by cases hk
  · intro k f n hf
    rw [hf] at hv
    exact hv
  · exact fun _ _ => ⟨i, update_self ..⟩

theorem Inv.forget (hs : s.sessions = none) :
    Inv { s with slot := none } (update V i .idle) := by
  have hknows : ∀ j, Knows { s with slot := none } (V j) :=
    hI.knows_of_reserved rfl rfl fun _ _ _ hr => ⟨hr.1, hr.2.1, fun hn => by cases hn⟩
  refine ⟨knows_update hknows trivial, hI.bounded, ?_, ?_, ?_, ?_⟩
  · exact fun f hf => by cases hf
  · intro k hk
    rw [hs] at hk
    cases hk
  · exact fun n hn => by cases hn
  · exact fun _ hne => absurd rfl hne

end

end Steps

end Artel.SlotAgreement
