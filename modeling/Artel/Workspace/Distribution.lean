import Artel.Workspace.Settling

namespace Artel.Workspace

open List

/-- Every rotation, reimport, file write, member removal and delivery succeeds. -/
def Event.untroubled : Event → Bool
  | .rotate answer => !answer.fault && answer.persisted && answer.swapped && answer.cleaned
  | .task _ ok => ok
  | .receive cleaned => cleaned
  | _ => true

/-- The peer was sent the namespace, or a task of the listener's is about to send it. -/
def Served (peer : PeerId) (ns : Namespace) (h : Host) (trace : List Mark) : Prop :=
  .handed peer ns ∈ trace ∨ .upgrade peer ns ∈ h.tasks

/-- The peers that a rotation has listed and not come to. -/
def Rotation.left : Rotation → Option (Finset PeerId)
  | .reimported _ | .refreshed _ => none
  | .distributing _ left => some left
  | .idle | .waiting _ | .collecting _ | .minted _ _ | .named _ _ | .rotated _ _ | .marked _ =>
    some ∅

/-- The namespace that the host has moved to in a rotation that goes on. -/
def Rotation.moved : Rotation → Option Namespace
  | .reimported outcome | .refreshed outcome | .distributing outcome _ => some outcome.newNamespace
  | .idle | .waiting _ | .collecting _ | .minted _ _ | .named _ _ | .rotated _ _ | .marked _ => none

structure Serving (h : Host) (trace : List Mark) : Prop where
  cell : (∀ outcome, h.rotation ≠ .reimported outcome) → h.upgradeSecret = h.doc
  moved : ∀ ns, h.rotation.moved = some ns → h.doc = ns
  served : ∀ left, h.rotation.left = some left → ∀ peer ∈ h.peerMap.rwPeersExceptHost,
    Served peer h.doc h trace ∨ peer ∈ left

namespace Serving

variable {h h' : Host} {trace : List Mark}

section

variable (hserving : Serving h trace)
include hserving

theorem goesOn (hsecret : h'.upgradeSecret = h.upgradeSecret)
    (hdoc : h'.doc = h.doc) (hrotation : h'.rotation = h.rotation) (marks : List Mark)
    (hserved : ∀ peer ∈ h'.peerMap.rwPeersExceptHost, peer ∈ h.peerMap.rwPeersExceptHost ∨
      .upgrade peer h.upgradeSecret ∈ h'.tasks)
    (htasks : ∀ peer ∈ h'.peerMap.rwPeersExceptHost, .upgrade peer h.doc ∈ h.tasks →
      Served peer h.doc h' (trace ++ marks)) : Serving h' (trace ++ marks) := by
  refine ⟨?_, ?_, fun left hleft peer hpeer => ?_⟩
  · rw [hsecret, hdoc, hrotation]
    exact hserving.cell
  · rw [hdoc, hrotation]
    exact hserving.moved
  · rw [hrotation] at hleft
    rw [hdoc]
    obtain hold | hnew := hserved peer hpeer
    · refine (hserving.served left hleft peer hold).imp_left fun hin => ?_
      obtain hin | hin := hin
      · exact .inl (mem_append_left _ hin)
      · exact htasks peer hpeer hin
    -- a grant captures the cell, which holds the live doc unless it is about to be replaced
    have hcell : h.upgradeSecret = h.doc := by
      refine hserving.cell fun outcome heq => ?_
      rw [heq] at hleft
      cases hleft
    exact .inl (.inr (hcell ▸ hnew))

theorem same (hsecret : h'.upgradeSecret = h.upgradeSecret)
    (hdoc : h'.doc = h.doc) (hrotation : h'.rotation = h.rotation)
    (hcaps : SameCaps h'.peerMap h.peerMap) (htasks : ∀ task ∈ h.tasks, task ∈ h'.tasks) :
    Serving h' trace := by
  have hrw : h'.peerMap.rwPeersExceptHost = h.peerMap.rwPeersExceptHost := by
    ext peer
    simp only [PeerMap.mem_rwPeersExceptHost, PeerMap.hasRw, hcaps.host, hcaps.caps]
  have hserving' := hserving.goesOn hsecret hdoc hrotation []
    (fun peer hpeer => .inl (hrw ▸ hpeer)) fun peer _ hin => .inr (htasks _ hin)
  rwa [append_nil] at hserving'

theorem handles {site : Site} {m : SessionMessage}
    (hhandled : Host.Handled site h m h') : Serving h' (trace ++ h.messageMarks m) := by
  obtain ⟨spawned, htasks, hupgrades, -⟩ := hhandled.tasks
  have hkeeps := hhandled.keeps
  refine hserving.goesOn hkeeps.upgradeSecret hkeeps.doc hkeeps.rotation _ (fun peer hpeer => ?_)
    fun peer _ hin => .inr (htasks ▸ mem_append_left _ hin)
  obtain ⟨hne, hrw⟩ := (PeerMap.mem_rwPeersExceptHost _).mp hpeer
  rw [hhandled.peerMap] at hne hrw
  rw [PeerMap.observe_host] at hne
  by_cases hold : h.peerMap.hasRw peer = true
  · exact .inl ((PeerMap.mem_rwPeersExceptHost _).mpr ⟨hne, hold⟩)
  refine .inr (htasks ▸ mem_append_right _ (hupgrades ?_))
  have hlookup := PeerMap.lookup_observe site.ed (site.sessionIdFor h.genesis) h.peerMap m peer
  have hnew : (h.peerMap.observe site.ed (site.sessionIdFor h.genesis) m).caps.lookup peer =
      some .readWrite := by
    simpa [PeerMap.hasRw] using hrw
  rw [hnew] at hlookup
  cases hact : actionOn h.peerMap.host peer m with
  | none =>
    rw [hact] at hlookup
    exact absurd hlookup.symm (by simpa [PeerMap.hasRw] using hold)
  | some action =>
    have htarget := actionOn_target hact
    rw [hact] at hlookup
    unfold actionOn at hact
    split at hact
    · rename_i hcap
      have hdecode := (Option.filter_eq_some_iff.mp hact).1
      cases action with
      | revoke target => simp [CapabilityAction.leaves] at hlookup
      | grant target cap =>
        obtain rfl : target = peer := htarget
        obtain rfl : Capability.readWrite = cap := by
          simpa [CapabilityAction.leaves] using hlookup
        have hobserve : h.peerMap.observe site.ed (site.sessionIdFor h.genesis) m =
            h.peerMap.applyCapability m.peer.id m.payload := by
          simp [PeerMap.observe, hcap.1]
        rw [hobserve] at hrw
        simp [Host.upgrades, hcap.1, hdecode, hrw]
    · cases hact

theorem ran {k : ℕ} {marks : List Mark} (hran : Host.Ran h k h' marks)
    (hopen : h.peerMap.readiness ≠ .closed) : Serving h' (trace ++ marks) := by
  have hkeeps := hran.keeps
  refine hserving.goesOn hkeeps.upgradeSecret hkeeps.doc hkeeps.rotation _
    (fun peer hpeer => .inl (hran.peerMap ▸ hpeer)) fun peer hpeer hin => ?_
  rw [hran.peerMap] at hpeer
  obtain ⟨-, hrw⟩ := (PeerMap.mem_rwPeersExceptHost _).mp hpeer
  obtain ⟨heq, -⟩ | ⟨task, htask, heq, ⟨hclosed, -⟩ | ⟨-, rfl⟩⟩ := hran.tasks
  · exact .inr (heq ▸ hin)
  · exact absurd hclosed hopen
  · obtain rfl | hrest := eq_or_mem_eraseIdx htask hin
    · exact .inl (mem_append_right _ (by simp [Host.deliveries, hrw]))
    · exact .inr (heq ▸ hrest)

end

theorem rotates {s t : State} {answer : RotateAnswer} (hspec : State.Rotates s h answer t)
    (hserving : Serving h s.trace) (hup : s.process = .up h) (hup' : t.process = .up h')
    (hok : answer.fault = false) (hswapped : answer.swapped = true)
    (hcleaned : answer.cleaned = true) (hopen : h.peerMap.readiness ≠ .closed) :
    Serving h' t.trace := by
  -- before the host moves, the cell holds the live doc and all are served
  have hearly : ∀ {rotation : Rotation}, h.rotation.left = some ∅ →
      (∀ outcome, h.rotation ≠ .reimported outcome) → rotation.moved = none →
      rotation.left = some ∅ → ∀ marks, Serving { h with rotation := rotation } (s.trace ++ marks) := by
    intro rotation hleft hnot hmoved' hleft' marks
    refine ⟨fun _ => hserving.cell hnot, fun ns hns => ?_, fun left heq peer hpeer => .inl ?_⟩
    · exact absurd (hmoved'.symm.trans hns) nofun
    · exact ((hserving.served ∅ hleft peer hpeer).resolve_right (Finset.notMem_empty _)).imp_left
        (mem_append_left _)
  have hnil : ∀ {h' : Host}, Serving h' (s.trace ++ []) → Serving h' s.trace := fun hs => by
    rwa [append_nil] at hs
  cases hspec with
  | stays =>
    obtain rfl : h = h' := by simpa [hup] using hup'
    exact hserving
  | skips =>
    cases hup'
    exact ⟨hserving.cell, hserving.moved, hserving.served⟩
  | takes hrotation =>
    cases hup'
    exact ⟨fun _ => hserving.cell (by simp [hrotation]), nofun, fun left hleft =>
      hserving.served left (by rw [hrotation]; exact hleft)⟩
  | abandons hclosed => exact absurd hclosed hopen
  | faults hfault => simp [hok] at hfault
  | begins hrotation | completes hrotation =>
    cases hup'
    exact hearly (by rw [hrotation]; rfl) (by simp [hrotation]) rfl rfl _
  | mints hrotation | names hrotation =>
    cases hup'
    exact hnil (hearly (by rw [hrotation]; rfl) (by simp [hrotation]) rfl rfl [])
  | @marks signal outcome dir hrotation =>
    cases hup'
    have hmarked : Serving { h with rotation := .marked outcome } (s.trace ++ []) :=
      hearly (by rw [hrotation]; rfl) (by simp [hrotation]) rfl rfl []
    obtain ⟨h1, h2, h3⟩ := hnil hmarked
    exact ⟨h1, h2, h3⟩
  | reimports hrotation hdoc =>
    cases hup'
    obtain rfl | ⟨-, hnot⟩ := hdoc
    · exact ⟨fun hnot => absurd rfl (hnot _), fun ns hns => Option.some.inj hns, nofun⟩
    · simp [hswapped] at hnot
  | @refreshes outcome hrotation =>
    cases hup'
    have hdoc := hserving.moved outcome.newNamespace (by rw [hrotation]; rfl)
    exact ⟨fun _ => hdoc.symm, fun ns hns => hdoc.trans (Option.some.inj hns), nofun⟩
  | retains _ hnot =>
    obtain hclosed | hnot := hnot
    · exact absurd hclosed hopen
    · simp [hcleaned] at hnot
  | @lists outcome hrotation =>
    cases hup'
    have hdoc := hserving.moved outcome.newNamespace (by rw [hrotation]; rfl)
    refine ⟨fun _ => hserving.cell (by simp [hrotation]), fun ns hns => hdoc.trans
      (Option.some.inj hns), fun left hleft peer hpeer => .inr ?_⟩
    cases hleft
    exact hpeer
  | @hands outcome left peer hrotation =>
    cases hup'
    have hdoc := hserving.moved outcome.newNamespace (by rw [hrotation]; rfl)
    refine ⟨fun _ => hserving.cell (by simp [hrotation]), fun ns hns => hdoc.trans
      (Option.some.inj hns), fun left' hleft' other hother => ?_⟩
    cases hleft'
    obtain hin | hin := hserving.served left (by rw [hrotation]; rfl) other hother
    · exact .inl (hin.imp_left (mem_append_left _))
    by_cases heq : other = peer
    · subst heq
      have hrw := ((PeerMap.mem_rwPeersExceptHost _).mp hother).2
      refine .inl (.inl (mem_append_right _ ?_))
      have hrw : h.peerMap.hasRw other = true := hrw
      simp [hrw, hdoc]
    · exact .inr (Finset.mem_erase.mpr ⟨heq, hin⟩)
  | ends hrotation =>
    cases hup'
    refine ⟨fun _ => hserving.cell (by simp [hrotation]), nofun, fun left hleft peer hpeer => .inl ?_⟩
    exact (hserving.served ∅ (by rw [hrotation]; rfl) peer hpeer).resolve_right
      (Finset.notMem_empty _)

end Serving

/-- A running host whose projection was not closed. -/
def Serves (s : State) : Prop :=
  ∀ h, s.process = .up h → h.peerMap.readiness ≠ .closed → Serving h s.trace

namespace Serves

variable {site : Site} {s t : State}

theorem of_not_up (h : t.process.isUp = false) : Serves t := fun host hup => by
  simp [hup, Process.isUp] at h

theorem outside (h : Serves s) (ht : State.Outside s t) : Serves t := by
  intro host' hup' hopen
  have hgrown : ∀ {host : Host}, Serving host s.trace → Serving host t.trace := by
    intro host hserving
    obtain heq | ⟨genesis, -, heq⟩ := ht.trace
    · exact heq ▸ hserving
    · rw [heq]
      exact hserving.goesOn rfl rfl rfl _ (fun _ => .inl) fun _ _ => .inr
  obtain hsame | ⟨host, listener, hup, hup''⟩ := ht.process
  · exact hgrown (h host' (hsame ▸ hup') hopen)
  · rw [hup''] at hup'
    cases hup'
    exact (hgrown (h host hup hopen)).same rfl rfl rfl (.refl _) fun _ => id

theorem advance (h : Serves s) {opens : Bool} (hspec : State.Advances site s opens t) :
    Serves t := by
  cases hspec with
  | stays => exact h
  | subscribes _ hr =>
    rw [State.bringUp_eq hr]
    rintro host ⟨⟩ _
    refine ⟨fun _ => rfl, nofun, fun left _ peer hpeer => ?_⟩
    -- no one but the host holds anything before the log is replayed
    obtain ⟨hne, hrw⟩ := (PeerMap.mem_rwPeersExceptHost _).mp hpeer
    have hlookup : (PeerMap.replaying site.host).caps.lookup peer = some .readWrite := by
      simpa [PeerMap.hasRw] using hrw
    have hne : peer ≠ site.host := hne
    rw [PeerMap.lookup_replaying, rootCaps, Function.update_of_ne hne] at hlookup
    cases hlookup
  | creates | reopens | records | clears | recovers | resets | registers | upgrades | fails =>
    exact of_not_up rfl

theorem receive (h : Serves s) {host : Host} (hup : s.process = .up host) {cleaned : Bool}
    (hspec : State.Receives site s host cleaned t) : Serves t := by
  cases hspec with
  | stays => exact h
  | @handles channel m rest host' hlistener hhandled =>
    rintro host'' ⟨⟩ hopen
    rw [hhandled.peerMap, PeerMap.observe_readiness] at hopen
    have hserving : Serving { host with listener := .streaming channel rest } s.trace :=
      (h host hup hopen).same rfl rfl rfl (.refl _) fun _ => id
    exact hserving.handles hhandled
  | completes _ hmap =>
    rintro host' ⟨⟩ hopen
    obtain rfl | ⟨rfl, -⟩ := hmap
    · refine (h host hup fun hclosed => ?_).same rfl rfl rfl (.finishReplay _) fun _ => id
      simp [PeerMap.finishReplay, hclosed] at hopen
    · exact absurd rfl hopen
  | joins =>
    rintro host' ⟨⟩ hopen
    exact (h host hup hopen).same rfl rfl rfl (.refl _) fun _ => mem_append_left _
  | gaps =>
    rintro host' ⟨⟩ hopen
    refine (h host hup fun hclosed => ?_).same rfl rfl rfl (.beginReplay _) fun _ => id
    simp [PeerMap.beginReplay, hclosed] at hopen

theorem step (h : Serves s) {event : Event} (hok : event.untroubled = true) :
    Serves (State.step site s event) := by
  have hspec := s.step_spec site event
  generalize State.step site s event = t at hspec
  cases hspec with
  | idles => exact h
  | outside hout => exact h.outside (s.outside_step site hout)
  | starts => exact of_not_up rfl
  | crashes => exact of_not_up rfl
  | advances hspec => exact h.advance hspec
  | receives hup hspec => exact h.receive hup hspec
  | stops =>
    rintro host' ⟨⟩ hopen
    exact absurd rfl hopen
  | runs hup hran =>
    rintro host' ⟨⟩ hopen
    rw [hran.peerMap] at hopen
    exact (h _ hup hopen).ran hran hopen
  | rotates hup hspec =>
    obtain ⟨host', hwithin⟩ := hspec.within hup
    intro host'' hup'' hopen
    obtain rfl : host' = host'' := by simpa [hwithin.process] using hup''
    rw [hwithin.peerMap] at hopen
    simp only [Event.untroubled, Bool.and_eq_true, Bool.not_eq_true'] at hok
    exact (h _ hup hopen).rotates hspec hup hwithin.process hok.1.1.1 hok.1.2 hok.2 hopen

end Serves

/-- In the end every `ReadWrite` member was sent the namespace the host writes to. -/
theorem rw_peers_served (site : Site) (events : List Event)
    (hok : ∀ event ∈ events, event.untroubled = true) (h : Host)
    (hup : (State.after site events).process = .up h) (hhandled : h.handled = true)
    (htasks : h.tasks = []) (peer : PeerId) (hpeer : peer ∈ h.peerMap.rwPeersExceptHost) :
    .handed peer h.doc ∈ (State.after site events).trace := by
  have hrun : Along (State.step site) (fun _ event => event.untroubled = true) .initial events :=
    .of_mem hok
  have hserves := hrun.invariant (I := Serves) (fun _ _ hserves => hserves.step) (.of_not_up rfl)
  simp only [Host.handled, Bool.and_eq_true, List.isEmpty_iff, decide_eq_true_eq,
    PeerMap.isReady] at hhandled
  obtain ⟨⟨⟨-, hready⟩, -⟩, hidle⟩ := hhandled
  have hserving := hserves h hup (by simp [hready])
  obtain (hin | hin) | hin := hserving.served ∅ (by rw [hidle]; rfl) peer hpeer
  · exact hin
  · simp [htasks] at hin
  · exact absurd hin (Finset.notMem_empty _)

namespace Sample

open Artel.Sample

/-- Granted before the secret is replaced, peer 1 is handed the old one last. -/
def grantedMeanwhile : List Event :=
  hosted ++ [.receive true] ++ delivered (capability 0 1 (.revoke (peer 2))) ++
    List.replicate 7 (.rotate {}) ++ delivered (capability 0 2 (.grant (peer 1) .readWrite)) ++
    List.replicate 3 (.rotate { peer := some (peer 1) }) ++
    [.rotate {}, .task 0 true, .task 0 true]

theorem rw_peers_served_meanwhile :
    .handed (peer 1) 0 ∈ (State.after site grantedMeanwhile).trace ∧
    ∃ hosted ∈ (State.after site grantedMeanwhile).hosting, hosted.1.doc = 1 ∧
      .handed (peer 1) hosted.1.doc ∈ (State.after site grantedMeanwhile).trace := by
  have hok : ∀ event ∈ grantedMeanwhile, event.untroubled = true := by decide +kernel
  have hhosting : ∃ hosted ∈ (State.after site grantedMeanwhile).hosting, hosted.1.doc = 1 ∧
      hosted.1.handled = true ∧ hosted.1.tasks = [] ∧
      peer 1 ∈ hosted.1.peerMap.rwPeersExceptHost := by
    decide +kernel
  obtain ⟨⟨h, r⟩, hin, hdoc, hhandled, htasks, hpeer⟩ := hhosting
  exact ⟨by decide +kernel, (h, r), hin, hdoc, rw_peers_served site grantedMeanwhile hok h
    (State.hosting_eq_some.mp hin).1 hhandled htasks _ hpeer⟩

end Sample

end Artel.Workspace
