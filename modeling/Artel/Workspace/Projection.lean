import Artel.Workspace.Feed

namespace Artel.Workspace

open List

/-- The listener is handed no message before one that precedes it in the log. -/
def NoOvertaking (s : State) : Event → Prop
  | .receive _ => ∀ m ∈ s.incoming, ∀ hosted ∈ s.hosting, ∀ x ∈ hosted.2.log,
      hosted.1.seen < x.seq → m.seq ≤ x.seq
  | _ => True

def NoRepeats (s : State) : Event → Prop
  | .receive _ => ∀ m ∈ s.incoming, ∀ hosted ∈ s.hosting, hosted.1.seen < m.seq
  | _ => True

def InOrder (s : State) (event : Event) : Prop := NoOvertaking s event ∧ NoRepeats s event

instance (s : State) : (event : Event) → Decidable (NoOvertaking s event)
  | .receive _ => inferInstanceAs (Decidable (∀ m ∈ s.incoming, ∀ hosted ∈ s.hosting, ∀ x ∈ _, _))
  | .rehost | .leave _ | .send _ _ | .emit _ | .peerJoined _ _ | .restartDaemon | .lose _ | .start
  | .advance _ | .reconnect | .giveUp | .task _ _ | .rotate _ | .crash => .isTrue trivial

instance (s : State) : (event : Event) → Decidable (NoRepeats s event)
  | .receive _ => inferInstanceAs (Decidable (∀ m ∈ s.incoming, ∀ hosted ∈ s.hosting, _))
  | .rehost | .leave _ | .send _ _ | .emit _ | .peerJoined _ _ | .restartDaemon | .lose _ | .start
  | .advance _ | .reconnect | .giveUp | .task _ _ | .rotate _ | .crash => .isTrue trivial

instance (s : State) (event : Event) : Decidable (InOrder s event) :=
  inferInstanceAs (Decidable (_ ∧ _))

def Record.upTo (r : Record) (seq : Seq) : List SessionMessage := r.log.filter (·.seq ≤ seq)

/-- The same roles; the endpoints and the readiness may differ. -/
structure SameCaps (a b : PeerMap) : Prop where
  host : a.host = b.host
  caps : a.caps = b.caps
  revoked : a.revoked = b.revoked

def Projected (site : Site) (h : Host) (r : Record) : Prop :=
  SameCaps h.peerMap ((r.upTo h.seen).foldl PeerMap.applyMessage (.replaying site.host))

def Host.caughtUp (h : Host) : Bool :=
  match h.listener with
  | .streaming _ [] => true
  | .streaming _ (_ :: _) | .reconnecting | .stopped => false

namespace SameCaps

variable {a b : PeerMap}

theorem refl (a : PeerMap) : SameCaps a a := ⟨rfl, rfl, rfl⟩

theorem trans {c : PeerMap} (h : SameCaps a b) (h' : SameCaps b c) : SameCaps a c :=
  ⟨h.host.trans h'.host, h.caps.trans h'.caps, h.revoked.trans h'.revoked⟩

theorem close (a : PeerMap) : SameCaps a.close a := ⟨rfl, rfl, rfl⟩

theorem finishReplay (a : PeerMap) : SameCaps a.finishReplay a := by
  unfold PeerMap.finishReplay
  split <;> exact ⟨rfl, rfl, rfl⟩

theorem beginReplay (a : PeerMap) : SameCaps a.beginReplay a := by
  unfold PeerMap.beginReplay
  split <;> exact ⟨rfl, rfl, rfl⟩

theorem applyMessage (h : SameCaps a b) (m : SessionMessage) :
    SameCaps (a.applyMessage m) (b.applyMessage m) := by
  obtain ⟨hhost, hcaps, hrevoked⟩ := h
  unfold PeerMap.applyMessage PeerMap.applyCapability
  rw [hhost]
  split
  · split
    · exact ⟨hhost, hcaps, hrevoked⟩
    · split
      · exact ⟨hhost, hcaps, hrevoked⟩
      · rename_i action _
        cases action <;> simp only [PeerMap.apply, hcaps, hrevoked] <;> exact ⟨hhost, rfl, rfl⟩
  · exact ⟨hhost, hcaps, hrevoked⟩

theorem observe (h : SameCaps a b) (ed : Ed25519) (session : SessionId) (m : SessionMessage) :
    SameCaps (a.observe ed session m) (b.applyMessage m) := by
  obtain ⟨workspaceId, hkind, -, -, heq⟩ | heq := a.observe_cases ed session m
  · have hb : b.applyMessage m = b := by simp [PeerMap.applyMessage, hkind]
    rw [heq, hb]
    exact ⟨h.host, h.caps, h.revoked⟩
  · rw [heq]
    exact h.applyMessage m

end SameCaps

namespace Record

variable {r : Record}

theorem mem_upTo {seq : Seq} {m : SessionMessage} : m ∈ r.upTo seq ↔ m ∈ r.log ∧ m.seq ≤ seq := by
  simp [upTo]

theorem upTo_zero (h : r.Numbered) : r.upTo Seq.ZERO = [] := by
  refine filter_eq_nil_iff.mpr fun m hm => ?_
  simpa using h.pos m hm

theorem upTo_all {seq : Seq} (hall : ∀ m ∈ r.log, m.seq ≤ seq) :
    r.upTo seq = r.log :=
  filter_eq_self.mpr fun m hm => by simpa using hall m hm

theorem Grows.upTo {r' : Record} (h : r.Grows r') {seq : Seq} (hseq : seq ≤ r.head) :
    r'.upTo seq = r.upTo seq := by
  obtain ⟨hlog, -⟩ | ⟨m, hnext, hlog, -⟩ := h
  · rw [Record.upTo, hlog, Record.upTo]
  · have hlt : seq < m.seq := (Seq.lt_next_iff _ _ _ hnext).mpr hseq
    simp [Record.upTo, hlog, filter_append, hlt]

theorem upTo_next (h : r.Numbered) {seen : Seq} {m : SessionMessage} (hm : m ∈ r.log)
    (hlt : seen < m.seq) (hnext : ∀ x ∈ r.log, seen < x.seq → m.seq ≤ x.seq) :
    r.upTo m.seq = r.upTo seen ++ [m] := by
  have hsub : ∀ seq, Ascending SessionMessage.seq (r.upTo seq) := fun seq =>
    Ascending.sublist _ h.ascending filter_sublist
  have hright : Ascending SessionMessage.seq (r.upTo seen ++ [m]) :=
    (Ascending.append_singleton _).mpr ⟨hsub seen, fun x hx => (mem_upTo.mp hx).2.trans_lt hlt⟩
  refine Ascending.eq_of_perm _ (hsub m.seq) hright ?_
  refine (perm_ext_iff_of_nodup ((hsub _).nodup_map _).of_map
    (hright.nodup_map _).of_map).mpr fun x => ?_
  simp only [mem_upTo, mem_append, mem_singleton]
  constructor
  · rintro ⟨hx, hle⟩
    by_cases hseen : x.seq ≤ seen
    · exact .inl ⟨hx, hseen⟩
    · have hge := hnext x hx (not_le.mp hseen)
      exact .inr (h.ascending.eq_of_key_eq _ hx hm (le_antisymm hle hge))
  · rintro (⟨hx, hle⟩ | rfl)
    · exact ⟨hx, hle.trans hlt.le⟩
    · exact ⟨hm, le_rfl⟩

end Record

namespace Projected

variable {site : Site} {h h' : Host} {r r' : Record}

theorem congr (hproj : Projected site h r) (hmap : SameCaps h'.peerMap h.peerMap)
    (hseen : h'.seen = h.seen) : Projected site h' r := by
  unfold Projected
  rw [hseen]
  exact hmap.trans hproj

theorem grows (hproj : Projected site h r) (hgrows : r.Grows r') (hseen : h.seen ≤ r.head) :
    Projected site h r' := by
  unfold Projected
  rw [hgrows.upTo hseen]
  exact hproj

theorem handles (hproj : Projected site h r) {m : SessionMessage} (hnumbered : r.Numbered)
    (hm : m ∈ r.log) (hlt : h.seen < m.seq) (hnext : ∀ x ∈ r.log, h.seen < x.seq → m.seq ≤ x.seq)
    (hmap : h'.peerMap = h.peerMap.observe site.ed (site.sessionIdFor h.genesis) m)
    (hseen : h'.seen = max h.seen m.seq) : Projected site h' r := by
  unfold Projected
  rw [hseen, max_eq_right hlt.le, Record.upTo_next hnumbered hm hlt hnext, hmap,
    foldl_append, foldl_cons, foldl_nil]
  exact hproj.observe _ _ m

end Projected

/-- A step that hands on the log in its order leaves the map a projection of what was seen. -/
theorem projected_step {site : Site} {s : State} (hkept : Kept s)
    (hproj : ∀ h r, s.hosting = some (h, r) → Projected site h r) {event : Event}
    (hclean : Clean s event) (horder : InOrder s event) (h' : Host) (r' : Record)
    (hhosting : (State.step site s event).hosting = some (h', r')) : Projected site h' r' := by
  by_cases hout : event.outside = true
  · obtain ⟨host, listener, r, hhost, rfl, hgrows, -⟩ :=
      s.outside_hosting site hout hclean hhosting
    obtain ⟨hup, hr⟩ := State.hosting_eq_some.mp hhost
    exact ((hproj host r hhost).grows hgrows (hkept.wired host r hup hr).1).congr (.refl _) rfl
  have hspec := s.step_spec site event
  generalize State.step site s event = t at hspec hhosting
  obtain ⟨hup', hr'⟩ := State.hosting_eq_some.mp hhosting
  cases hspec with
  | idles => exact hproj h' r' hhosting
  | outside hin => exact absurd hin hout
  | starts => cases hup'
  | crashes => cases hup'
  | advances hspec =>
    cases hspec with
    | stays => exact hproj h' r' hhosting
    | subscribes _ hr =>
      rw [State.bringUp_eq hr] at hup' hr'
      cases hup'
      obtain rfl := Option.some.inj (hr.symm.trans hr')
      unfold Projected
      rw [show Host.seen _ = Seq.ZERO from rfl, Record.upTo_zero (hkept.records _ _ hr).1]
      exact .refl _
    | creates | reopens | records | clears | recovers | resets | registers | upgrades | fails =>
      cases hup'
  | @receives host cleaned t hup hspec =>
    have hold : ∀ {r : Record}, s.sessions host.genesis = some r → Projected site host r :=
      fun hr => hproj host _ (State.hosting_eq_some.mpr ⟨hup, hr⟩)
    cases hspec with
    | stays => exact hproj h' r' hhosting
    | @handles channel m rest _ hlistener hhandled =>
      cases hup'
      have hr : s.sessions host.genesis = some r' := hhandled.keeps.genesis ▸ hr'
      have hincoming : s.incoming = some m := by simp [State.incoming, hup, hlistener]
      have hhost : s.hosting = some (host, r') := State.hosting_eq_some.mpr ⟨hup, hr⟩
      have hm : m ∈ r'.log :=
        ((hkept.wired host r' hup hr).2 channel _ hlistener).logged m mem_cons_self
      exact (hold hr).handles (hkept.records _ _ hr).1 hm (horder.2 m hincoming _ hhost)
        (horder.1 m hincoming _ hhost) hhandled.peerMap hhandled.seen
    | completes _ hmap =>
      cases hup'
      refine (hold hr').congr ?_ rfl
      obtain rfl | ⟨rfl, -⟩ := hmap
      · exact .finishReplay _
      · exact .close _
    | joins =>
      cases hup'
      exact (hold hr').congr (.refl _) rfl
    | gaps =>
      cases hup'
      exact (hold hr').congr (.beginReplay _) rfl
  | @stops host hup =>
    cases hup'
    exact (hproj host r' (State.hosting_eq_some.mpr ⟨hup, hr'⟩)).congr (.close _) rfl
  | runs hup hran =>
    have hwithin := State.within_ran (s := s) hran
    obtain ⟨rfl, hhost⟩ := hwithin.hosting hup hhosting
    exact (hproj _ r' hhost).congr (hwithin.peerMap ▸ .refl _) hwithin.seen
  | rotates hup hspec =>
    obtain ⟨host', hwithin⟩ := hspec.within hup
    obtain ⟨rfl, hhost⟩ := hwithin.hosting hup hhosting
    exact (hproj _ r' hhost).congr (hwithin.peerMap ▸ .refl _) hwithin.seen

structure Ordered (site : Site) (s : State) : Prop where
  kept : Kept s
  projected : ∀ h r, s.hosting = some (h, r) → Projected site h r

theorem ordered_run (site : Site) (events : List Event)
    (hrun : Along (State.step site) (fun s event => Clean s event ∧ InOrder s event) .initial
      events) : Ordered site (State.after site events) :=
  hrun.invariant (fun _ _ h hcond =>
    ⟨h.kept.step hcond.1, projected_step h.kept h.projected hcond.1 hcond.2⟩) ⟨.initial, nofun⟩

theorem Kept.seen_all {s : State} (hkept : Kept s) {h : Host} {r : Record} (hup : s.process = .up h)
    (hr : s.sessions h.genesis = some r) (hpending : s.pending = []) (hcaught : h.caughtUp = true) :
    ∀ m ∈ r.log, m.seq ≤ h.seen := by
  intro m hm
  by_contra hlt
  unfold Host.caughtUp at hcaught
  split at hcaught
  · rename_i channel hlistener
    obtain hin | hin | hin :=
      ((hkept.wired h r hup hr).2 channel [] hlistener).covered m hm (not_le.mp hlt)
    · cases hin
    · simp [hpending] at hin
    · cases hin
  all_goals cases hcaught

/-- A log that reaches the listener in order is the map's when nothing is under way. -/
theorem caps_eq_log_projection (site : Site) (events : List Event)
    (hrun : Along (State.step site) (fun s event => Clean s event ∧ InOrder s event) .initial events)
    (h : Host) (r : Record) (hhosting : (State.after site events).hosting = some (h, r))
    (hpending : (State.after site events).pending = []) (hcaught : h.caughtUp = true) :
    h.peerMap.caps = ((PeerMap.replaying site.host).project r.log).caps ∧
      h.peerMap.revoked = ((PeerMap.replaying site.host).project r.log).revoked := by
  have hinv := ordered_run site events hrun
  obtain ⟨hup, hr⟩ := State.hosting_eq_some.mp hhosting
  have hnumbered := (hinv.kept.records _ r hr).1
  have hseen := hinv.kept.seen_all hup hr hpending hcaught
  have hsorted : r.log.insertionSort (fun a b => a.seq ≤ b.seq) = r.log :=
    List.Pairwise.insertionSort_eq (hnumbered.ascending.imp fun hlt => hlt.le)
  have hproj := hinv.projected h r hhosting
  rw [Projected, Record.upTo_all hseen] at hproj
  rw [PeerMap.project, hsorted]
  exact ⟨hproj.caps, hproj.revoked⟩

namespace Sample

open Artel.Sample

/-- The host grants and then revokes peer 1; the two are emitted in some order. -/
def grantRevoke (emitted : List Event) : List Event :=
  hosted ++ [.receive true, .send 0 (capability 0 1 (.grant (peer 1) .readWrite)),
    .send 0 (capability 0 2 (.revoke (peer 1)))] ++ emitted ++ [.receive true, .receive true]

/-- Emitted in the order of the log. -/
theorem caps_eq_log_projection_revoked :
    ∃ hosted ∈ (State.after site (grantRevoke [.emit 0, .emit 0])).hosting,
      hosted.1.peerMap.isReady = true ∧
      hosted.1.peerMap.caps = ((PeerMap.replaying site.host).project hosted.2.log).caps ∧
      hosted.1.peerMap.revoked = ((PeerMap.replaying site.host).project hosted.2.log).revoked := by
  have hrun : Along (State.step site) (fun s event => Clean s event ∧ InOrder s event) .initial
      (grantRevoke [.emit 0, .emit 0]) := by
    decide +kernel
  have hpending : (State.after site (grantRevoke [.emit 0, .emit 0])).pending = [] := by
    decide +kernel
  have hhosting : ∃ hosted ∈ (State.after site (grantRevoke [.emit 0, .emit 0])).hosting,
      hosted.1.peerMap.isReady = true ∧ hosted.1.caughtUp = true := by
    decide +kernel
  obtain ⟨⟨h, r⟩, hin, hready, hcaught⟩ := hhosting
  exact ⟨(h, r), hin, hready, caps_eq_log_projection site _ hrun h r hin hpending hcaught⟩

/-- Emitted the other way round, peer 1 keeps what the log took from it. -/
theorem reordered_projection_differs :
    (State.after site (grantRevoke [.emit 1, .emit 0])).pending = [] ∧
    ∃ hosted ∈ (State.after site (grantRevoke [.emit 1, .emit 0])).hosting,
      hosted.1.peerMap.isReady = true ∧ hosted.1.caughtUp = true ∧
      hosted.1.peerMap.caps.lookup (peer 1) = some .readWrite ∧
      ((PeerMap.replaying site.host).project hosted.2.log).caps.lookup (peer 1) = none := by
  decide +kernel

end Sample

end Artel.Workspace
