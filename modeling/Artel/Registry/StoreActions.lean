import Artel.Registry.Coarse
import Artel.Registry.StoreInvariant

namespace Artel.StoreAgreement

open Registry Store

section Actions

variable {me : ℕ} {v : View} {β : Type} {R : β → View → Prop}

theorem quiet_of_same {α : Type} {l : Label} {ready : Env → World → Bool}
    {f : Env → World → α × World}
    (hf : ∀ e s V, Inv s V → V me = v → Orderly l e s → Same (f e s).2 s) :
    Quiet Inv Orderly me v (Fiber.waitFor l ready f) :=
  Quiet.waitFor fun e s V hI hv hC => hI.of_same (hf e s V hI hv hC)

theorem Inv.same {s s' : World} {V : ℕ → View} (hI : Inv s V) (hsessions : s'.sessions = s.sessions)
    (hnext : s'.nextHandle = s.nextHandle) (hdisk : s'.disk.dir = s.disk.dir)
    (hcells : s'.cells = s.cells) (hforwarders : ∀ h ∈ s'.forwarders, h ∈ s.forwarders) :
    Same s' s :=
  ⟨hsessions, hnext, hdisk, fun h => by rw [hcells]; exact ⟨rfl, rfl⟩,
    fun h hh => hI.forwarders h (hforwarders h hh)⟩

theorem quiet_emit (h : Handle) (event : Event) : Quiet Inv Orderly me v (emit h event) := by
  apply quiet_of_same
  intro e s V hI _ _
  refine ⟨rfl, rfl, rfl, fun k => ?_, hI.forwarders⟩
  by_cases hk : k = h
  · subst hk
    rw [World.modify_cells_self]
    exact ⟨rfl, rfl⟩
  · dsimp only
    rw [World.modify_cells_of_ne _ _ hk]
    exact ⟨rfl, rfl⟩

theorem quiet_clock : Quiet Inv Orderly me v clock :=
  quiet_of_same fun _ _ _ hI _ _ => hI.same rfl rfl rfl rfl fun _ hh => hh

theorem quiet_listen (h : Handle) : Quiet Inv Orderly me v (listen h) :=
  quiet_of_same fun _ _ _ hI _ _ => hI.same rfl rfl rfl rfl fun _ hh => hh

theorem quiet_floor : Quiet Inv Orderly me v (store .floor epochFloor) := by
  apply quiet_of_same
  intro e s V hI _ hC
  have hfault : e.fault = none := hC
  rw [hfault]
  exact hI.same rfl rfl rfl rfl fun _ hh => hh

theorem joinBlind_inv : JoinBlind Inv where
  tables _ _ _ _ _ _ _ hI := hI.of_same (hI.same rfl rfl rfl rfl fun _ hh => hh)

theorem slotBlind_inv : SlotBlind Inv where
  slot _ _ _ _ hI := hI.of_same (hI.same rfl rfl rfl rfl fun _ hh => hh)
  erase _ _ _ hI := hI.of_same (hI.same rfl rfl rfl rfl fun _ hh => List.mem_of_mem_erase hh)

theorem quiet_subscribeInner (h : Handle) (feeds : Option Handle)
    (hfeeds : ∀ k, feeds = some k → v = .found k) :
    Quiet Inv Orderly me v (subscribeInner h feeds) := by
  apply slotBlind_inv.subscribeInner
  apply quiet_of_same
  intro e s V hI hv _
  refine ⟨rfl, rfl, rfl, fun _ => ⟨rfl, rfl⟩, fun k hk => ?_⟩
  rcases List.mem_append.mp hk with hk | hk
  · exact hI.forwarders k hk
  · have hknows := hI.knows me
    rw [hv, hfeeds k (Option.mem_toList.mp hk)] at hknows
    exact hknows

theorem follows_lookup {l : Label} {k : Option Handle → Async β} (hv : v.settled)
    (hnone : Follows Inv Orderly me R (k none) v)
    (hsome : ∀ h, Follows Inv Orderly me R (k (some h)) (.found h)) :
    Follows Inv Orderly me R ((lookupAs l).bind k) v := by
  apply Follows.waitFor
  intro s V e hI hvi _ _
  cases hs : s.sessions with
  | none => exact Follows.keep hvi hI hnone
  | some h =>
    rw [← hvi] at hv
    exact ⟨.found h, hI.found hv (hI.published h hs), hsome h⟩

variable {h : Handle}

theorem follows_lock {k : Session → Async β}
    (hk : ∀ session, Follows Inv Orderly me R (k session) (.locked h session session.image false)) :
    Follows Inv Orderly me R ((lock me h).bind k) (.found h) := by
  apply Follows.waitFor
  intro s V e hI hv hready _
  exact ⟨_, hI.lock hv (Option.isNone_iff_eq_none.mp hready), hk _⟩

variable {session : Session} {x : Image}

theorem follows_unlock {k : Unit → Async β}
    (hx : x = session.image) (hk : Follows Inv Orderly me R (k ()) (.found h)) :
    Follows Inv Orderly me R ((unlock h).bind k) (.locked h session x false) := by
  subst hx
  apply Follows.once
  intro s V e hI hv _
  exact ⟨_, hI.unlock hv, hk⟩

theorem follows_unlock_deleted {k : Unit → Async β}
    (hk : Follows Inv Orderly me R (k ()) (.closing h)) :
    Follows Inv Orderly me R ((unlock h).bind k) (.locked h session x true) := by
  apply Follows.once
  intro s V e hI hv _
  exact ⟨_, hI.unlock_deleted hv, hk⟩

theorem follows_update {deleted : Bool}
    {k : Unit → Async β} (f : Session → Session)
    (hk : Follows Inv Orderly me R (k ()) (.locked h (f session) x deleted)) :
    Follows Inv Orderly me R ((update h f).bind k) (.locked h session x deleted) := by
  apply Follows.once
  intro s V e hI hv _
  exact ⟨_, hI.update hv f, hk⟩

theorem follows_write {op : Disk → IoResult Unit} {x' y : Image}
    {k : Except IoError Unit → Async β} (hop : Writes op x x' y)
    (hok : Follows Inv Orderly me R (k (.ok ())) (.locked h session x' false))
    (herr : ∀ err, Follows Inv Orderly me R (k (.error err)) (.locked h session y false)) :
    Follows Inv Orderly me R ((store (.write h) op).bind k) (.locked h session x false) := by
  apply Follows.once
  intro s V e hI hv hC
  obtain ⟨hfault, hguard⟩ := hC
  rw [hfault]
  have hknows := hI.knows me
  rw [hv] at hknows
  have hstep : ∀ z, (∀ dir, s.disk.dir = some dir → Holds x dir →
      ∃ dir', (op s.disk).2.dir = some dir' ∧ Holds z dir') →
      Inv { s with disk := (op s.disk).2 } (Function.update V me (.locked h session z false)) := by
    intro z hz
    -- with a record there, the session in the map is the one whose lock is held
    have hafter : s.disk.dir ≠ none → ∃ dir', (op s.disk).2.dir = some dir' ∧ Holds z dir' := by
      intro hdir
      obtain ⟨dir, hdir'⟩ := Option.ne_none_iff_exists'.mp hdir
      exact hz dir hdir' (hknows.2.2.2 (hguard hdir) dir hdir').2
    refine hI.disk hv hguard (hop.1 s.disk) (fun _ dir' hdir' => ⟨rfl, ?_⟩) fun hdir hgone => ?_
    · by_cases hdir : s.disk.dir = none
      · rw [hop.1 s.disk hdir] at hdir'
        cases hdir'
      · obtain ⟨dir, hsome, hholds⟩ := hafter hdir
        rw [hsome] at hdir'
        cases hdir'
        exact hholds
    · obtain ⟨dir, hsome, -⟩ := hafter hdir
      rw [hsome] at hgone
      cases hgone
  cases hres : (op s.disk).1 with
  | ok u =>
    refine ⟨_, hstep x' fun dir hdir hx => ?_, hok⟩
    rcases hop.2 s.disk dir hdir hx with ⟨-, hholds⟩ | ⟨⟨err, herr'⟩, -⟩
    · exact hholds
    · rw [hres] at herr'
      cases herr'
  | error err =>
    refine ⟨_, hstep y fun dir hdir hx => ?_, herr err⟩
    rcases hop.2 s.disk dir hdir hx with ⟨hok', -⟩ | ⟨-, hholds⟩
    · rw [hres] at hok'
      cases hok'
    · exact hholds

theorem follows_delete
    {k : Except IoError Unit → Async β}
    (hk : Follows Inv Orderly me R (k (.ok ())) (.locked h session x true)) :
    Follows Inv Orderly me R ((store (.write h) delete).bind k) (.locked h session x false) := by
  apply Follows.once
  intro s V e hI hv hC
  obtain ⟨hfault, hguard⟩ := hC
  rw [hfault]
  refine ⟨_, hI.disk hv hguard (fun _ => rfl) (fun _ dir hdir => ?_) (fun _ _ => rfl), hk⟩
  cases hdir

theorem follows_unpublish {k : Unit → Async β}
    (hk : Follows Inv Orderly me R (k ()) (.found h)) :
    Follows Inv Orderly me R ((unpublishAs (.unpublish h)).bind k) (.closing h) := by
  apply Follows.waitFor
  intro s V e hI hv _ hC
  exact ⟨_, hI.unpublish hv hC, hk⟩

theorem follows_create {k : Except IoError Unit → Async β}
    (hv : v.settled) (hlog : session.log = []) (hticket : session.workspaceTicket = none)
    (hk : Follows Inv Orderly me R (k (.ok ())) (.creating session)) :
    Follows Inv Orderly me R ((store .create (create session.record)).bind k) v := by
  apply Follows.once
  intro s V e hI hvi hC
  obtain ⟨hfault, hs, hdir⟩ := hC
  rw [hfault]
  obtain ⟨hok, hholds⟩ := create_holds hdir hlog hticket
  rw [hok]
  rw [← hvi] at hv
  exact ⟨_, hI.create hv.free.2.2 hs hdir hholds, hk⟩

end Actions

end Artel.StoreAgreement
