import Artel.Lib.View
import Artel.Registry.Registry

namespace Artel.Fanout

open Registry Function List

def messages (feed : List Event) : List SessionMessage :=
  feed.filterMap fun e => match e with | .message m => some m | _ => none

theorem messages_append (l r : List Event) : messages (l ++ r) = messages l ++ messages r :=
  filterMap_append ..

/-- It holds the lock, owes a message, or has its snapshot and place in the feed. -/
inductive View
  | idle
  | holding (session : Session)
  | owing (m : SessionMessage) (locked : Bool)
  | subscribed (session : Session) (start : ℕ) (locked : Bool)

def View.locked : View → Bool
  | .idle => false
  | .holding _ => true
  | .owing _ locked => locked
  | .subscribed _ _ locked => locked

/-- The snapshot holds what was sent before the place, and no more. -/
def Snapshot (log₀ : List SessionMessage) (ticket : Option Bytes) (host : PeerId)
    (feed : List Event) (session : Session) (start : ℕ) : Prop :=
  session.workspaceTicket = ticket ∧ session.host = host ∧
    session.log = log₀ ++ messages (feed.take start) ∧ start ≤ feed.length

structure Knows (log₀ : List SessionMessage) (c : Cell) (i : ℕ) (v : View) : Prop where
  holder : v.locked = true → c.holder = some i
  holding : ∀ session, v = .holding session → c.session = session
  owing : ∀ m locked, v = .owing m locked → m ∈ c.session.log ∧ m ∉ log₀ ∧ m ∉ messages c.feed
  subscribed : ∀ session start locked, v = .subscribed session start locked →
    Snapshot log₀ c.session.workspaceTicket c.session.host c.feed session start

/-- What was committed is what was sent and then what some call owes. -/
structure Inv (log₀ : List SessionMessage) (s : World) (V : ℕ → View) : Prop where
  entry : s.sessions = some 0
  numbered : Numbered (s.cells 0).session
  positive : ∀ m ∈ (s.cells 0).session.log, m ∉ log₀ → Seq.ZERO < m.seq
  knows : ∀ i, Knows log₀ (s.cells 0) i (V i)
  sent : ∃ rest, (s.cells 0).session.log = log₀ ++ messages (s.cells 0).feed ++ rest ∧
    ∀ m ∈ rest, ∃ i, ∃ locked, V i = .owing m locked
  distinct : ∀ i m, (∃ locked, V i = .owing m locked) → ∀ j, (∃ locked, V j = .owing m locked) → i = j

/-- Receivers are made, and messages sent, when all before has been sent. -/
def InStep (log₀ : List SessionMessage) : Label → Env → World → Prop
  | .listen h, _, s =>
    ∀ m ∈ (s.cells h).session.log, m ∈ log₀ ∨ .message m ∈ (s.cells h).feed
  | .emit h (.message m), _, s =>
    ∀ k ∈ (s.cells h).session.log, k.seq < m.seq → k ∈ log₀ ∨ .message k ∈ (s.cells h).feed
  | _, _, _ => True

section Steps

variable {log₀ : List SessionMessage} {s : World} {V : ℕ → View} {i : ℕ}

theorem Inv.of_eq {s' : World} (hI : Inv log₀ s V) (hentry : s'.sessions = s.sessions)
    (hcells : s'.cells = s.cells) : Inv log₀ s' V := by
  obtain ⟨h1, h2, h3, h4, h5, h6⟩ := hI
  constructor
  · rwa [hentry]
  · rwa [hcells]
  · rwa [hcells]
  · rwa [hcells]
  · rwa [hcells]
  · exact h6

theorem Knows.idle (c : Cell) (i : ℕ) : Knows log₀ c i .idle where
  holder h := by cases h
  holding _ h := by cases h
  owing _ _ h := by cases h
  subscribed _ _ _ h := by cases h

theorem Inv.not_locked (hI : Inv log₀ s V) (hi : (V i).locked = true) {j : ℕ} (hj : j ≠ i) :
    (V j).locked = false := by
  by_contra hlocked
  have h1 := (hI.knows i).holder hi
  have h2 := (hI.knows j).holder (by simpa using hlocked)
  rw [h1] at h2
  exact hj (Option.some.inj h2).symm

theorem Knows.set_holder {c : Cell} {j : ℕ} {v : View} (h : Knows log₀ c j v)
    (hv : v.locked = false) (holder : Option ℕ) : Knows log₀ { c with holder := holder } j v where
  holder hl := by rw [hv] at hl; cases hl
  holding session hs := by rw [hs] at hv; cases hv
  owing := h.owing
  subscribed := h.subscribed

theorem knows_update {c : Cell} {w : View} (hw : Knows log₀ c i w)
    (hV : ∀ j, j ≠ i → Knows log₀ c j (V j)) (j : ℕ) :
    Knows log₀ c j (update V i w j) :=
  (forall_update_iff V fun j v => Knows log₀ c j v).mpr ⟨hw, hV⟩ j

theorem owing_update {w : View}
    (hw : ∀ m, (∃ locked, V i = .owing m locked) ↔ ∃ locked, w = .owing m locked) :
    ∀ j m, (∃ locked, update V i w j = .owing m locked) ↔
      ∃ locked, V j = .owing m locked := by
  intro j m
  by_cases hj : j = i
  · rw [hj, update_self, hw]
  · rw [update_of_ne hj]

section

variable (hI : Inv log₀ s V)
include hI

theorem Inv.set_holder {holder : Option ℕ} {w : View}
    (hV : ∀ j, j ≠ i → (V j).locked = false)
    (hw : ∀ m, (∃ locked, V i = .owing m locked) ↔ ∃ locked, w = .owing m locked)
    (hknows : Knows log₀ { s.cells 0 with holder := holder } i w) :
    Inv log₀ (s.modify 0 fun c => { c with holder := holder }) (update V i w) := by
  have howed := owing_update hw
  obtain ⟨rest, hlog, hrest⟩ := hI.sent
  constructor
  · exact hI.entry
  · rw [World.modify_cells_self]
    exact hI.numbered
  · rw [World.modify_cells_self]
    exact hI.positive
  · rw [World.modify_cells_self]
    exact knows_update hknows fun j hj => (hI.knows j).set_holder (hV j hj) holder
  · rw [World.modify_cells_self]
    refine ⟨rest, hlog, fun m hm => ?_⟩
    obtain ⟨j, hj⟩ := hrest m hm
    exact ⟨j, (howed j m).mpr hj⟩
  · intro j m hj k hk
    exact hI.distinct j m ((howed j m).mp hj) k ((howed k m).mp hk)

theorem Inv.lock (hfree : (s.cells 0).holder = none) (hv : V i = .idle) :
    Inv log₀ (s.modify 0 fun c => { c with holder := some i })
      (update V i (.holding (s.cells 0).session)) := by
  apply hI.set_holder
  · intro j _
    by_contra hlocked
    have hj := (hI.knows j).holder (by simpa using hlocked)
    rw [hfree] at hj
    cases hj
  · intro m
    rw [hv]
    simp
  · refine ⟨fun _ => rfl, ?_, ?_, ?_⟩
    · intro session hs
      cases hs
      rfl
    · exact fun _ _ h => by cases h
    · exact fun _ _ _ h => by cases h

theorem Inv.unlock (hlocked : (V i).locked = true) {w : View}
    (hw : ∀ m, (∃ locked, V i = .owing m locked) ↔ ∃ locked, w = .owing m locked)
    (hwl : w.locked = false)
    (hsub : ∀ session start locked, w = .subscribed session start locked →
      ∃ locked, V i = .subscribed session start locked) :
    Inv log₀ (s.modify 0 fun c => { c with holder := none }) (update V i w) := by
  apply hI.set_holder
  · exact fun j hj => hI.not_locked hlocked hj
  · exact hw
  · refine ⟨?_, ?_, ?_, ?_⟩
    · intro h
      rw [hwl] at h
      cases h
    · intro session hs
      rw [hs] at hwl
      cases hwl
    · intro m locked hm
      obtain ⟨l, hl⟩ := (hw m).mpr ⟨locked, hm⟩
      exact (hI.knows i).owing m l hl
    · intro session start locked hs
      obtain ⟨l, hl⟩ := hsub session start locked hs
      exact (hI.knows i).subscribed session start l hl

theorem Inv.commit {ed : Ed25519} {session : Session} {draft : Draft}
    {m : SessionMessage} (hv : V i = .holding session) (hm : Prepared ed session draft m) :
    Inv log₀ (s.modify 0 fun c => { c with session := commitSend c.session m })
      (update V i (.owing m true)) := by
  have hsession := (hI.knows i).holding session hv
  subst hsession
  have hlt : ∀ k ∈ (s.cells 0).session.log, k.seq < m.seq := fun k hk =>
    (Seq.lt_next_iff _ _ _ hm.seq).mpr (hI.numbered.le_head k hk)
  have hpos : Seq.ZERO < m.seq := (Seq.lt_next_iff _ _ _ hm.seq).mpr (Seq.zero_le _)
  obtain ⟨rest, hlog, hrest⟩ := hI.sent
  -- its seq is above every other, so the message is new to the log and to the feed
  have hnew : m ∉ log₀ ∧ m ∉ messages (s.cells 0).feed := by
    have hnot : m ∉ (s.cells 0).session.log := fun hmem => lt_irrefl _ (hlt m hmem)
    rw [hlog] at hnot
    simp only [mem_append, not_or] at hnot
    exact hnot.1
  have hvi : ∀ k, ¬ ∃ locked, V i = .owing k locked := by
    rintro k ⟨locked, hk⟩
    rw [hv] at hk
    cases hk
  have hothers : ∀ j k, ¬ ∃ locked, V j = .owing k locked ∧ k = m := by
    rintro j k ⟨locked, hj, rfl⟩
    exact lt_irrefl _ (hlt k ((hI.knows j).owing k locked hj).1)
  constructor
  · exact hI.entry
  · rw [World.modify_cells_self]
    exact numbered_commitSend hI.numbered hm
  · rw [World.modify_cells_self]
    intro k hk hk₀
    rcases mem_append.mp hk with hk | hk
    · exact hI.positive k hk hk₀
    · rw [mem_singleton.mp hk]
      exact hpos
  · rw [World.modify_cells_self]
    apply knows_update
    · refine ⟨?_, ?_, ?_, ?_⟩
      · exact fun _ => (hI.knows i).holder (by rw [hv]; rfl)
      · exact fun _ h => by cases h
      · intro k locked hk
        cases hk
        exact ⟨mem_append_right _ (mem_singleton.mpr rfl), hnew⟩
      · exact fun _ _ _ h => by cases h
    · intro j hj
      have hunlocked := hI.not_locked (by rw [hv]; rfl) hj
      have hk := hI.knows j
      refine ⟨hk.holder, ?_, ?_, hk.subscribed⟩
      · intro session hs
        rw [hs] at hunlocked
        cases hunlocked
      · intro k locked hkv
        obtain ⟨hmem, hrestk⟩ := hk.owing k locked hkv
        exact ⟨mem_append_left _ hmem, hrestk⟩
  · rw [World.modify_cells_self]
    refine ⟨rest ++ [m], ?_, ?_⟩
    · simp only [commitSend]
      rw [hlog, append_assoc]
    · intro k hk
      rcases mem_append.mp hk with hk | hk
      · exact exists_update (fun v : View => ∃ locked, v = .owing k locked) (hrest k hk) (hvi k) _
      · rw [mem_singleton.mp hk]
        exact ⟨i, true, update_self ..⟩
  · intro j k hj l hl
    by_cases hji : j = i
    · by_cases hli : l = i
      · rw [hji, hli]
      · rw [hji, update_self] at hj
        rw [update_of_ne hli] at hl
        obtain ⟨locked, hk⟩ := hj
        cases hk
        obtain ⟨locked, hl⟩ := hl
        exact absurd ⟨locked, hl, rfl⟩ (hothers l m)
    · rw [update_of_ne hji] at hj
      by_cases hli : l = i
      · rw [hli, update_self] at hl
        obtain ⟨locked, hk⟩ := hl
        cases hk
        obtain ⟨locked, hj⟩ := hj
        exact absurd ⟨locked, hj, rfl⟩ (hothers j m)
      · rw [update_of_ne hli] at hl
        exact hI.distinct j k hj l hl

theorem Inv.next_sent {m : SessionMessage} {locked : Bool}
    (hv : V i = .owing m locked)
    (hturn : ∀ k ∈ (s.cells 0).session.log, k.seq < m.seq →
      k ∈ log₀ ∨ .message k ∈ (s.cells 0).feed) :
    ∃ rest, (s.cells 0).session.log = log₀ ++ messages (s.cells 0).feed ++ m :: rest ∧
      ∀ k ∈ m :: rest, ∃ j, ∃ locked, V j = .owing k locked := by
  obtain ⟨rest, hlog, hrest⟩ := hI.sent
  obtain ⟨hmem, hm₀, hmfeed⟩ := (hI.knows i).owing m locked hv
  have hasc := hI.numbered.ascending
  rw [hlog] at hasc hmem
  have hmrest : m ∈ rest := by
    simp only [mem_append] at hmem
    rcases hmem with (hmem | hmem) | hmem
    · exact absurd hmem hm₀
    · exact absurd hmem hmfeed
    · exact hmem
  cases rest with
  | nil => cases hmrest
  | cons k rest =>
    -- whatever stood before it would have a smaller seq, and that has been sent
    have hkm : k = m := by
      by_contra hne
      obtain ⟨-, hasc', hcross⟩ := pairwise_append.mp hasc
      have hlt : k.seq < m.seq := by
        rcases mem_cons.mp hmrest with heq | htail
        · exact absurd heq.symm hne
        · exact (pairwise_cons.mp hasc').1 m htail
      have hk : k ∈ log₀ ++ messages (s.cells 0).feed := by
        have hlogk : k ∈ (s.cells 0).session.log := by
          rw [hlog]
          exact mem_append_right _ mem_cons_self
        rcases hturn k hlogk hlt with hk | hk
        · exact mem_append_left _ hk
        · exact mem_append_right _ (mem_filterMap.mpr ⟨_, hk, rfl⟩)
      exact lt_irrefl _ (hcross k hk k mem_cons_self)
    subst hkm
    exact ⟨rest, hlog, hrest⟩

theorem Inv.emit {m : SessionMessage} (hv : V i = .owing m false)
    (hturn : ∀ k ∈ (s.cells 0).session.log, k.seq < m.seq →
      k ∈ log₀ ∨ .message k ∈ (s.cells 0).feed) :
    Inv log₀ (s.modify 0 fun c => { c with feed := c.feed ++ [.message m] })
      (update V i .idle) := by
  obtain ⟨rest, hlog, hrest⟩ := hI.next_sent hv hturn
  have hsent : messages ((s.cells 0).feed ++ [.message m]) = messages (s.cells 0).feed ++ [m] :=
    messages_append ..
  have hasc := hI.numbered.ascending
  rw [hlog] at hasc
  have hrestm : ∀ k ∈ rest, k ≠ m := by
    rintro k hk rfl
    have hpair := (pairwise_append.mp hasc).2.1
    exact lt_irrefl _ ((pairwise_cons.mp hpair).1 k hk)
  constructor
  · exact hI.entry
  · rw [World.modify_cells_self]
    exact hI.numbered
  · rw [World.modify_cells_self]
    exact hI.positive
  · rw [World.modify_cells_self]
    apply knows_update (Knows.idle _ i)
    intro j hj
    have hk := hI.knows j
    refine ⟨hk.holder, hk.holding, ?_, ?_⟩
    · intro k locked hkv
      obtain ⟨hmem, hk₀, hkfeed⟩ := hk.owing k locked hkv
      refine ⟨hmem, hk₀, ?_⟩
      rw [hsent, mem_append, not_or]
      refine ⟨hkfeed, fun hkm => ?_⟩
      rw [mem_singleton.mp hkm] at hkv
      exact hj (hI.distinct j m ⟨locked, hkv⟩ i ⟨false, hv⟩)
    · intro session start locked hs
      obtain ⟨h1, h2, h3, h4⟩ := hk.subscribed session start locked hs
      refine ⟨h1, h2, ?_, ?_⟩
      · rw [h3, take_append_of_le_length h4]
      · rw [length_append]
        omega
  · rw [World.modify_cells_self]
    refine ⟨rest, ?_, fun k hk => ?_⟩
    · rw [hsent, hlog]
      simp
    · apply exists_update (fun v : View => ∃ locked, v = .owing k locked)
        (hrest k (mem_cons_of_mem m hk))
      rintro ⟨locked, hkv⟩
      rw [hv] at hkv
      cases hkv
      exact hrestm _ hk rfl
  · have hback : ∀ j k, (∃ locked, update V i .idle j = .owing k locked) →
        ∃ locked, V j = .owing k locked := by
      rintro j k ⟨locked, hj⟩
      by_cases hji : j = i
      · rw [hji, update_self] at hj
        cases hj
      · rw [update_of_ne hji] at hj
        exact ⟨locked, hj⟩
    exact fun j k hj l hl => hI.distinct j k (hback j k hj) l (hback l k hl)

theorem Inv.listen {session : Session} (hv : V i = .holding session)
    (hall : ∀ m ∈ (s.cells 0).session.log, m ∈ log₀ ∨ .message m ∈ (s.cells 0).feed) :
    Inv log₀ s (update V i (.subscribed session (s.cells 0).feed.length true)) := by
  have hsession := (hI.knows i).holding session hv
  have howed := owing_update (V := V) (i := i)
    (w := .subscribed session (s.cells 0).feed.length true) (by rw [hv]; simp)
  obtain ⟨rest, hlog, hrest⟩ := hI.sent
  have hasc := hI.numbered.ascending
  rw [hlog] at hasc
  -- what is owed is in the log, and the guard says that it has been sent
  have hnil : rest = [] := by
    apply eq_nil_iff_forall_not_mem.mpr
    intro m hm
    have hmem : m ∈ log₀ ++ messages (s.cells 0).feed := by
      have hmlog : m ∈ (s.cells 0).session.log := by
        rw [hlog]
        exact mem_append_right _ hm
      rcases hall m hmlog with hm | hm
      · exact mem_append_left _ hm
      · exact mem_append_right _ (mem_filterMap.mpr ⟨_, hm, rfl⟩)
    exact lt_irrefl _ ((pairwise_append.mp hasc).2.2 m hmem m hm)
  refine { hI with knows := ?_, sent := ?_, distinct := ?_ }
  · apply knows_update _ fun j _ => hI.knows j
    refine ⟨?_, ?_, ?_, ?_⟩
    · exact fun _ => (hI.knows i).holder (by rw [hv]; rfl)
    · exact fun _ h => by cases h
    · exact fun _ _ h => by cases h
    · intro session' start locked hs
      cases hs
      refine ⟨by rw [hsession], by rw [hsession], ?_, le_rfl⟩
      rw [take_length, ← hsession, hlog, hnil, append_nil]
  · refine ⟨rest, hlog, fun m hm => ?_⟩
    obtain ⟨j, hj⟩ := hrest m hm
    exact ⟨j, (howed j m).mpr hj⟩
  · exact fun j m hj k hk => hI.distinct j m ((howed j m).mp hj) k ((howed k m).mp hk)

end

end Steps

end Artel.Fanout
