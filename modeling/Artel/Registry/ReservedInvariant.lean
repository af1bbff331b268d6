import Artel.Registry.Coarse

namespace Artel.Reserved

open Registry

variable (a : String)

/-- A system message with the action is the daemon's own; only those have no seq. -/
def Injected (m : SessionMessage) : Prop := m.kind = .system → m.action = a → m.seq = Seq.ZERO

/-- A call works on nothing in particular, or on a session it knows to be a mirror. -/
inductive View
  | idle
  | mirror (h : Handle)

structure Inv (s : World) (V : ℕ → View) : Prop where
  log : ∀ h < s.nextHandle, (s.cells h).session.kind = .Local →
    ∀ m ∈ (s.cells h).session.log, ¬ (m.kind = .system ∧ m.action = a)
  feed : ∀ h < s.nextHandle, ∀ m, .message m ∈ (s.cells h).feed → Injected a m
  forwarders : ∀ h ∈ s.forwarders, h < s.nextHandle ∧ (s.cells h).session.kind = .Remote
  mirror : ∀ i h, V i = .mirror h → h < s.nextHandle ∧ (s.cells h).session.kind = .Remote

abbrev Free : Label → Env → World → Prop := fun _ _ _ => True

variable {a} {s : World} {V : ℕ → View}

theorem Inv.of_eq {s' : World} (hI : Inv a s V) (hcells : s'.cells = s.cells)
    (hnext : s'.nextHandle = s.nextHandle) (hfwd : ∀ h ∈ s'.forwarders, h ∈ s.forwarders) :
    Inv a s' V := by
  constructor
  · rw [hcells, hnext]
    exact hI.log
  · rw [hcells, hnext]
    exact hI.feed
  · rw [hcells, hnext]
    exact fun h hh => hI.forwarders h (hfwd h hh)
  · rw [hcells, hnext]
    exact hI.mirror

theorem joinBlind_inv : JoinBlind (Inv a) where
  tables _ _ _ _ _ _ _ hI := hI.of_eq rfl rfl fun _ hh => hh

theorem slotBlind_inv : SlotBlind (Inv a) where
  slot _ _ _ _ hI := hI.of_eq rfl rfl fun _ hh => hh
  erase _ _ _ hI := hI.of_eq rfl rfl fun _ hh => List.mem_of_mem_erase hh

theorem Inv.modify (hI : Inv a s V) {h : Handle} {f : Cell → Cell}
    (hkind : ∀ c, (f c).session.kind = c.session.kind)
    (hlog : (s.cells h).session.kind = .Local → ∀ m ∈ (f (s.cells h)).session.log,
      m ∈ (s.cells h).session.log ∨ ¬ (m.kind = .system ∧ m.action = a))
    (hfeed : ∀ m, .message m ∈ (f (s.cells h)).feed →
      .message m ∈ (s.cells h).feed ∨ Injected a m) : Inv a (s.modify h f) V := by
  have hsame : ∀ k, ((s.modify h f).cells k).session.kind = (s.cells k).session.kind := by
    intro k
    by_cases hk : k = h
    · rw [hk, World.modify_cells_self]
      exact hkind _
    · rw [World.modify_cells_of_ne s f hk]
  constructor
  · intro k hk hlocal m hm
    rw [hsame] at hlocal
    by_cases hkh : k = h
    · subst hkh
      rw [World.modify_cells_self] at hm
      rcases hlog hlocal m hm with hm | hm
      · exact hI.log k hk hlocal m hm
      · exact hm
    · rw [World.modify_cells_of_ne s f hkh] at hm
      exact hI.log k hk hlocal m hm
  · intro k hk m hm
    by_cases hkh : k = h
    · subst hkh
      rw [World.modify_cells_self] at hm
      rcases hfeed m hm with hm | hm
      · exact hI.feed k hk m hm
      · exact hm
    · rw [World.modify_cells_of_ne s f hkh] at hm
      exact hI.feed k hk m hm
  · intro k hk
    rw [hsame]
    exact hI.forwarders k hk
  · intro i k hk
    rw [hsame]
    exact hI.mirror i k hk

theorem Inv.insert (hI : Inv a s V) (session : Session)
    (hlog : session.log = []) : Inv a (s.insert session) V := by
  have hold : ∀ k, k < s.nextHandle ∧ (s.cells k).session.kind = .Remote →
      k < s.nextHandle + 1 ∧ ((s.insert session).cells k).session.kind = .Remote := by
    rintro k ⟨hk, hremote⟩
    rw [World.insert_cells_of_lt s session hk]
    exact ⟨Nat.lt_succ_of_lt hk, hremote⟩
  constructor
  · intro k hk hlocal m hm
    rcases Nat.lt_succ_iff_lt_or_eq.mp hk with hk | rfl
    · rw [World.insert_cells_of_lt s session hk] at hlocal hm
      exact hI.log k hk hlocal m hm
    · rw [World.insert_cells_self, hlog] at hm
      cases hm
  · intro k hk m hm
    rcases Nat.lt_succ_iff_lt_or_eq.mp hk with hk | rfl
    · rw [World.insert_cells_of_lt s session hk] at hm
      exact hI.feed k hk m hm
    · rw [World.insert_cells_self] at hm
      cases hm
  · exact fun k hk => hold k (hI.forwarders k hk)
  · exact fun i k hk => hold k (hI.mirror i k hk)

theorem Inv.setMirror (hI : Inv a s V) (i : ℕ) {h : Handle}
    (hh : h < s.nextHandle ∧ (s.cells h).session.kind = .Remote) :
    Inv a s (Function.update V i (.mirror h)) := by
  refine { hI with mirror := ?_ }
  refine (Function.forall_update_iff V fun _ v => ∀ k, v = .mirror k →
    k < s.nextHandle ∧ (s.cells k).session.kind = .Remote).mpr
      ⟨fun k hk => ?_, fun j _ => hI.mirror j⟩
  cases hk
  exact hh

section Actions

variable {me : ℕ} {v : View} (h : Handle)

theorem quiet_lock : Quiet (Inv a) Free me v (lock me h) := by
  apply Quiet.waitFor
  intro _ s V hI _ _
  dsimp only
  apply hI.modify
  · exact fun _ => rfl
  · exact fun _ m hm => .inl hm
  · exact fun m hm => .inl hm

theorem quiet_unlock : Quiet (Inv a) Free me v (unlock h) := by
  apply Quiet.once
  intro _ s V hI _ _
  dsimp only
  apply hI.modify
  · exact fun _ => rfl
  · exact fun _ m hm => .inl hm
  · exact fun m hm => .inl hm

theorem quiet_update {f : Session → Session} (hkind : ∀ s, (f s).kind = s.kind)
    (hlog : ∀ s, (f s).log = s.log) : Quiet (Inv a) Free me v (update h f) := by
  apply Quiet.once
  intro _ s V hI _ _
  dsimp only
  apply hI.modify
  · exact fun c => hkind c.session
  · intro _ m hm
    rw [hlog] at hm
    exact .inl hm
  · exact fun m hm => .inl hm

theorem quiet_emit {event : Event} (hevent : ∀ m, event = .message m → Injected a m) :
    Quiet (Inv a) Free me v (emit h event) := by
  apply Quiet.once
  intro _ s V hI _ _
  dsimp only
  apply hI.modify
  · exact fun _ => rfl
  · exact fun _ m hm => .inl hm
  · intro m hm
    rcases List.mem_append.mp hm with hm | hm
    · exact .inl hm
    · exact .inr (hevent m (List.mem_singleton.mp hm).symm)

theorem quiet_store {α : Type} (l : Label) (op : Store.Disk → Store.IoResult α) :
    Quiet (Inv a) Free me v (store l op) := by
  apply Quiet.once
  intro e s V hI _ _
  split <;> exact hI.of_eq rfl rfl fun _ hh => hh

theorem quiet_lookup (l : Label) : Quiet (Inv a) Free me v (lookupAs l) :=
  .waitFor fun _ _ _ hI _ _ => hI

theorem quiet_unpublish (l : Label) : Quiet (Inv a) Free me v (unpublishAs l) :=
  .waitFor fun _ _ _ hI _ _ => hI.of_eq rfl rfl fun _ hh => hh

theorem quiet_subscribeInner (feeds : Option Handle)
    (hfeeds : ∀ k, feeds = some k → v = .mirror k) :
    Quiet (Inv a) Free me v (subscribeInner h feeds) := by
  apply slotBlind_inv.subscribeInner
  apply Quiet.once
  intro _ s V hI hv _
  refine { hI with forwarders := ?_ }
  intro k hk
  rcases List.mem_append.mp hk with hk | hk
  · exact hI.forwarders k hk
  · apply hI.mirror me
    rw [hv]
    exact hfeeds k (Option.mem_toList.mp hk)

end Actions

end Artel.Reserved
