import Artel.Workspace.Steps

namespace Artel.Workspace

open List

def Task.namespaces : Task → List Namespace
  | .upgrade _ secret => [secret]
  | .redeliver _ secret ticket _ => [secret, ticket]
  | .downgrade _ | .removeMember _ => []

def Host.offers (h : Host) : List Namespace :=
  h.upgradeSecret :: h.currentWriteTicket.1 :: h.tasks.flatMap Task.namespaces

def Rotation.made : Rotation → Option Namespace
  | .minted _ ns | .named _ ns => some ns
  | .rotated _ outcome | .marked outcome | .reimported outcome | .refreshed outcome
  | .distributing outcome _ => some outcome.newNamespace
  | .idle | .waiting _ | .collecting _ => none

def Rotation.sealed : Rotation → Option Namespace
  | .minted _ ns | .named _ ns => some ns
  | .rotated _ outcome | .marked outcome | .reimported outcome => some outcome.newNamespace
  | .idle | .waiting _ | .collecting _ | .refreshed _ | .distributing _ _ => none

def Process.opens : Process → Option Namespace
  | .opening (.creating ns) | .opening (.recorded ns) => some ns
  | .opening (.opened doc) | .opening (.recovered doc _) | .opening (.registered doc _)
  | .opening (.upgraded doc _) => some doc.doc
  | .down | .opening .start | .up _ => none

def Unoffered (ns : Namespace) (h : Host) (trace : List Mark) : Prop :=
  ns ∉ h.offers ∧ ∀ peer, .handed peer ns ∉ trace

/-- What is handed on was made before, by a rotation in the end only. -/
structure Handing (s : State) : Prop where
  handed : ∀ peer ns, .handed peer ns ∈ s.trace → ns < s.nextNamespace
  docId : ∀ ns, s.dir.docId = some ns → ns < s.nextNamespace
  current : ∀ ns, s.dir.currentNamespace = some ns → ns < s.nextNamespace
  opens : ∀ ns, s.process.opens = some ns → ns < s.nextNamespace
  offers : ∀ h, s.process = .up h → ∀ ns ∈ h.offers, ns < s.nextNamespace
  made : ∀ h, s.process = .up h → ∀ ns, h.rotation.made = some ns → ns < s.nextNamespace
  unoffered : ∀ h, s.process = .up h → ∀ ns, h.rotation.sealed = some ns → Unoffered ns h s.trace

namespace Host

variable {h h' : Host}

theorem offers_spawned (hsecret : h'.upgradeSecret = h.upgradeSecret)
    (hticket : h'.currentWriteTicket = h.currentWriteTicket) {spawned : List Task}
    (htasks : h'.tasks = h.tasks ++ spawned)
    (hspawned : ∀ task ∈ spawned, ∀ ns ∈ task.namespaces, ns ∈ h.offers) :
    ∀ ns ∈ h'.offers, ns ∈ h.offers := by
  intro ns hin
  simp only [Host.offers, hsecret, hticket, htasks, mem_cons, flatMap_append,
    mem_append] at hin
  obtain rfl | rfl | hin | hin := hin
  · simp [Host.offers]
  · simp [Host.offers]
  · simp only [Host.offers, mem_cons]
    exact .inr (.inr hin)
  · obtain ⟨task, htask, hns⟩ := mem_flatMap.mp hin
    exact hspawned task htask ns hns

theorem Handled.offers {site : Site} {m : SessionMessage}
    (hhandled : Handled site h m h') : ∀ ns ∈ h'.offers, ns ∈ h.offers := by
  obtain ⟨spawned, htasks, -, hspawned⟩ := hhandled.tasks
  refine offers_spawned hhandled.keeps.upgradeSecret hhandled.keeps.currentWriteTicket htasks
    fun task htask ns hns => ?_
  obtain ⟨peer, rfl⟩ | ⟨peer, stamp, rfl⟩ | ⟨peer, rfl⟩ | ⟨peer, rfl⟩ := hspawned task htask
  · obtain rfl : ns = h.upgradeSecret := by simpa [Task.namespaces] using hns
    simp [Host.offers]
  · obtain rfl | rfl : ns = h.upgradeSecret ∨ ns = h.currentWriteTicket.1 := by
      simpa [Task.namespaces] using hns
    · simp [Host.offers]
    · simp [Host.offers]
  · simp [Task.namespaces] at hns
  · simp [Task.namespaces] at hns

theorem handed_messageMarks (h : Host) (m : SessionMessage) (peer : PeerId) (ns : Namespace) :
    .handed peer ns ∉ h.messageMarks m := by
  intro hin
  obtain heq | ⟨peer, heq⟩ | ⟨signal, -, heq⟩ := mem_messageMarks hin <;> cases heq

theorem handed_deliveries {task : Task} {peer : PeerId} {ns : Namespace}
    (hin : .handed peer ns ∈ h.deliveries task) :
    ns ∈ task.namespaces ∧ h.peerMap.hasRw peer = true := by
  cases task with
  | upgrade target secret =>
    simp only [deliveries] at hin
    split at hin
    · rename_i hrw
      obtain ⟨rfl, rfl⟩ : peer = target ∧ ns = secret := by simpa using hin
      exact ⟨by simp [Task.namespaces], hrw⟩
    · simp at hin
  | redeliver target secret ticket stamp =>
    simp only [deliveries] at hin
    split at hin
    · rename_i hrw
      have hin : peer = target ∧ ns = secret ∨ peer = target ∧ ns = ticket := by simpa using hin
      obtain ⟨rfl, rfl⟩ | ⟨rfl, rfl⟩ := hin
      · exact ⟨by simp [Task.namespaces], hrw⟩
      · exact ⟨by simp [Task.namespaces], hrw⟩
    · simp at hin
  | downgrade target | removeMember target =>
    simp only [deliveries] at hin
    split at hin <;> simp at hin

theorem Ran.handed {k : ℕ} {marks : List Mark} (hran : Ran h k h' marks)
    {peer : PeerId} {ns : Namespace} (hin : .handed peer ns ∈ marks) :
    ns ∈ h.offers ∧ h.peerMap.readiness = .ready ∧ h.peerMap.hasRw peer = true := by
  obtain ⟨-, rfl⟩ | ⟨task, htask, -, ⟨-, rfl⟩ | ⟨hready, rfl⟩⟩ := hran.tasks
  · cases hin
  · cases hin
  · obtain ⟨hns, hrw⟩ := handed_deliveries hin
    refine ⟨?_, hready, hrw⟩
    simp only [Host.offers, mem_cons]
    exact .inr (.inr (mem_flatMap.mpr ⟨task, mem_of_getElem? htask, hns⟩))

theorem Ran.offers {k : ℕ} {marks : List Mark} (hran : Ran h k h' marks) :
    ∀ ns ∈ h'.offers, ns ∈ h.offers := by
  intro ns hin
  simp only [Host.offers, hran.keeps.upgradeSecret, hran.keeps.currentWriteTicket, mem_cons,
    mem_flatMap] at hin ⊢
  refine hin.imp_right fun hin => hin.imp_right fun ⟨task, htask, hns⟩ => ⟨task, ?_, hns⟩
  obtain ⟨heq, -⟩ | ⟨task, -, heq, -⟩ := hran.tasks
  · exact heq ▸ htask
  · rw [heq] at htask
    exact mem_of_mem_eraseIdx htask

end Host

namespace Handing

variable {site : Site} {s t : State}

theorem of_not_up (h : Handing s) (hnext : s.nextNamespace ≤ t.nextNamespace)
    (htrace : ∀ peer ns, .handed peer ns ∈ t.trace → .handed peer ns ∈ s.trace)
    (hdoc : ∀ ns, t.dir.docId = some ns → ns < t.nextNamespace)
    (hcurrent : t.dir.currentNamespace = s.dir.currentNamespace)
    (hopens : ∀ ns, t.process.opens = some ns → ns < t.nextNamespace)
    (hup : t.process.isUp = false) : Handing t :=
  ⟨fun peer ns hin => (h.handed peer ns (htrace peer ns hin)).trans_le hnext, hdoc,
    fun ns hns => (h.current ns (hcurrent ▸ hns)).trans_le hnext, hopens,
    fun host hhost => absurd hhost (Process.ne_up hup host),
    fun host hhost => absurd hhost (Process.ne_up hup host),
    fun host hhost => absurd hhost (Process.ne_up hup host)⟩

theorem initial : Handing .initial :=
  ⟨nofun, nofun, nofun, nofun, fun host hhost => absurd hhost (Process.ne_up rfl host),
    fun host hhost => absurd hhost (Process.ne_up rfl host),
    fun host hhost => absurd hhost (Process.ne_up rfl host)⟩

section

variable (h : Handing s)
include h

theorem host {host' : Host} (hup' : t.process = .up host') (marks : List Mark)
    (htrace : t.trace = s.trace ++ marks) (hnext : s.nextNamespace ≤ t.nextNamespace)
    (hdoc : t.dir.docId = s.dir.docId)
    (hcurrent : ∀ ns, t.dir.currentNamespace = some ns → ns < t.nextNamespace)
    (hhanded : ∀ peer ns, .handed peer ns ∈ marks → ns < t.nextNamespace)
    (hoffers : ∀ ns ∈ host'.offers, ns < t.nextNamespace)
    (hmade : ∀ ns, host'.rotation.made = some ns → ns < t.nextNamespace)
    (hsealed : ∀ ns, host'.rotation.sealed = some ns → Unoffered ns host' t.trace) : Handing t := by
  have hsame : ∀ {host : Host}, t.process = .up host → host = host' := fun hup => by
    simpa [hup'] using hup.symm
  refine ⟨fun peer ns hin => ?_, fun ns hns => ?_, hcurrent, fun ns hns => ?_,
    fun host hup => hsame hup ▸ hoffers, fun host hup => hsame hup ▸ hmade,
    fun host hup => hsame hup ▸ hsealed⟩
  · rw [htrace, mem_append] at hin
    exact hin.elim (fun hin => (h.handed peer ns hin).trans_le hnext) (hhanded peer ns)
  · exact (h.docId ns (hdoc ▸ hns)).trans_le hnext
  · rw [hup'] at hns
    cases hns

theorem keeps {host host' : Host} (hup : s.process = .up host) (marks : List Mark)
    (hoffers : ∀ ns ∈ host'.offers, ns ∈ host.offers) (hrotation : host'.rotation = host.rotation)
    (hhanded : ∀ peer ns, .handed peer ns ∈ marks → ns ∈ host.offers) :
    Handing ((s.setHost host').note marks) := by
  refine h.host rfl marks rfl le_rfl rfl h.current
    (fun peer ns hin => h.offers host hup ns (hhanded peer ns hin))
    (fun ns hin => h.offers host hup ns (hoffers ns hin))
    (fun ns hns => h.made host hup ns (hrotation ▸ hns)) fun ns hns => ?_
  obtain ⟨hnot, htrace⟩ := h.unoffered host hup ns (hrotation ▸ hns)
  refine ⟨fun hin => hnot (hoffers ns hin), fun peer hin => ?_⟩
  obtain hin | hin := mem_append.mp hin
  · exact htrace peer hin
  · exact hnot (hhanded peer ns hin)

theorem outside (ht : State.Outside s t) : Handing t := by
  have htrace : ∀ peer ns, .handed peer ns ∈ t.trace → .handed peer ns ∈ s.trace := by
    intro peer ns hin
    obtain heq | ⟨genesis, -, heq⟩ := ht.trace
    · exact heq ▸ hin
    · rw [heq] at hin
      simpa using hin
  obtain ⟨h1, h2, h3, h4, h5, h6, h7⟩ := h
  obtain hsame | ⟨host, listener, hup, hup'⟩ := ht.process
  · refine ⟨fun peer ns hin => ?_, ?_, ?_, ?_, ?_, ?_, fun host hup ns hns => ?_⟩
    · rw [ht.nextNamespace]
      exact h1 peer ns (htrace peer ns hin)
    · rw [ht.dir, ht.nextNamespace]
      exact h2
    · rw [ht.dir, ht.nextNamespace]
      exact h3
    · rw [hsame, ht.nextNamespace]
      exact h4
    · rw [hsame, ht.nextNamespace]
      exact h5
    · rw [hsame, ht.nextNamespace]
      exact h6
    · obtain ⟨hnot, hclear⟩ := h7 host (hsame ▸ hup) ns hns
      exact ⟨hnot, fun peer hin => hclear peer (htrace peer ns hin)⟩
  · refine ⟨fun peer ns hin => ?_, ?_, ?_, ?_, ?_, ?_, ?_⟩
    · rw [ht.nextNamespace]
      exact h1 peer ns (htrace peer ns hin)
    · rw [ht.dir, ht.nextNamespace]
      exact h2
    · rw [ht.dir, ht.nextNamespace]
      exact h3
    · rw [hup']
      exact nofun
    all_goals
      intro host' hhost'
      rw [hup'] at hhost'
      cases hhost'
    · rw [ht.nextNamespace]
      exact h5 host hup
    · rw [ht.nextNamespace]
      exact h6 host hup
    · intro ns hns
      obtain ⟨hnot, hclear⟩ := h7 host hup ns hns
      exact ⟨hnot, fun peer hin => hclear peer (htrace peer ns hin)⟩

theorem advance {opens : Bool} (hspec : State.Advances site s opens t) :
    Handing t := by
  have hgoes : ∀ {phase : Opening}, (∀ ns, (Process.opening phase).opens = some ns →
      ns < s.nextNamespace) → Handing (s.setOpening phase) := fun hopens =>
    h.of_not_up le_rfl (fun _ _ => id) h.docId rfl hopens rfl
  have hhosted : ∀ {doc : OpenedDoc} {phase : Opening}, s.process.opens = some doc.doc →
      (Process.opening phase).opens = some doc.doc →
      Handing ((s.hostSession doc.genesis).setOpening phase) := by
    intro doc phase hopens hphase
    have hout := s.outside_hostSession doc.genesis
    have hhanding := h.outside hout
    refine hhanding.of_not_up le_rfl (fun _ _ => id) hhanding.docId rfl (fun ns hns => ?_) rfl
    have hlt := h.opens ns (hopens.trans (hphase.symm.trans hns))
    exact hout.nextNamespace.symm ▸ hlt
  cases hspec with
  | stays => exact h
  | creates =>
    refine h.of_not_up (Nat.le_succ _) (fun _ _ => id)
      (fun ns hns => (h.docId ns hns).trans (Nat.lt_succ_self _)) rfl (fun ns hns => ?_) rfl
    cases hns
    exact Nat.lt_succ_self _
  | @reopens genesis _ hdoc =>
    refine hgoes fun ns hns => ?_
    obtain rfl : s.dir.currentNamespace.getD genesis = ns := Option.some.inj hns
    cases hcurrent : s.dir.currentNamespace with
    | none => exact h.docId genesis hdoc
    | some current => exact h.current current hcurrent
  | records hprocess =>
    have hlt := h.opens _ (by rw [hprocess]; rfl)
    refine h.of_not_up le_rfl (fun _ _ => id) (fun ns hns => ?_) rfl (fun ns hns => ?_) rfl
    · cases hns
      exact hlt
    · cases hns
      exact hlt
  | clears hprocess =>
    have hlt := h.opens _ (by rw [hprocess]; rfl)
    refine h.of_not_up le_rfl (fun _ _ => id) h.docId rfl (fun ns hns => ?_) rfl
    cases hns
    exact hlt
  | recovers hprocess =>
    refine hgoes fun ns hns => h.opens ns ?_
    rw [hprocess]
    exact hns
  | resets hprocess =>
    refine h.of_not_up le_rfl (fun _ _ => id) h.docId rfl (fun ns hns => h.opens ns ?_) rfl
    rw [hprocess]
    exact hns
  | registers hprocess => exact hhosted (by rw [hprocess]; rfl) rfl
  | upgrades hprocess => exact hhosted (by rw [hprocess]; rfl) rfl
  | fails => exact h.of_not_up le_rfl (fun _ _ => id) h.docId rfl nofun rfl
  | subscribes hprocess hr =>
    have hlt := h.opens _ (by rw [hprocess]; rfl)
    rw [State.bringUp_eq hr]
    refine h.host rfl [] (append_nil _).symm le_rfl rfl h.current (by simp) (fun ns hns => ?_)
      nofun nofun
    obtain rfl : ns = _ := by simpa [Host.offers] using hns
    exact hlt

theorem receive {host : Host} (hup : s.process = .up host) {cleaned : Bool}
    (hspec : State.Receives site s host cleaned t) : Handing t := by
  have hquiet : ∀ {host' : Host}, (∀ ns ∈ host'.offers, ns ∈ host.offers) →
      host'.rotation = host.rotation → Handing (s.setHost host') := fun hoffers hrotation => by
    simpa using h.keeps hup [] hoffers hrotation (by simp)
  cases hspec with
  | stays => exact h
  | handles hlistener hhandled =>
    refine h.keeps hup _ hhandled.offers hhandled.keeps.rotation fun peer ns hin => ?_
    exact absurd hin (Host.handed_messageMarks host _ peer ns)
  | completes => exact hquiet (fun _ => id) rfl
  | joins _ hspawned =>
    refine hquiet (Host.offers_spawned rfl rfl rfl fun task htask ns hns => ?_) rfl
    obtain rfl := hspawned task htask
    obtain rfl : ns = host.upgradeSecret := by simpa [Task.namespaces] using hns
    simp [Host.offers]
  | gaps => exact hquiet (fun _ => id) rfl

theorem rotate {host : Host} (hup : s.process = .up host) {answer : RotateAnswer}
    (hspec : State.Rotates s host answer t) : Handing t := by
  have hoffers := h.offers host hup
  have hmade := h.made host hup
  -- a step that leaves the offers, and either goes on with the sealed namespace or has none
  have hgoes : ∀ {host' : Host}, host'.offers = host.offers →
      (∀ ns, host'.rotation.made = some ns → host.rotation.made = some ns) →
      (∀ ns, host'.rotation.sealed = some ns → host.rotation.sealed = some ns) →
      Handing (s.setHost host') := by
    intro host' hsame hmade' hsealed
    refine h.host rfl [] (append_nil _).symm le_rfl rfl h.current (by simp)
      (fun ns hin => hoffers ns (hsame ▸ hin)) (fun ns hns => hmade ns (hmade' ns hns)) fun ns hns => ?_
    obtain ⟨hnot, hclear⟩ := h.unoffered host hup ns (hsealed ns hns)
    exact ⟨hsame ▸ hnot, hclear⟩
  cases hspec with
  | stays => exact h
  | skips => exact hgoes rfl (fun _ => id) fun _ => id
  | begins => exact h.host rfl _ rfl le_rfl rfl h.current (by simp) hoffers nofun nofun
  | mints =>
    have hlt : ∀ ns, ns < s.nextNamespace → ns < s.nextNamespace + 1 := fun ns hns =>
      hns.trans (Nat.lt_succ_self _)
    refine h.host rfl [] (append_nil _).symm (Nat.le_succ _) rfl
      (fun ns hns => hlt ns (h.current ns hns)) (by simp) (fun ns hns => hlt ns (hoffers ns hns))
      (fun ns hns => ?_) fun ns hns => ?_
    · cases hns
      exact Nat.lt_succ_self _
    · cases hns
      exact ⟨fun hin => lt_irrefl _ (hoffers _ hin), fun peer hin => lt_irrefl _ (h.handed peer _ hin)⟩
  | names hrotation =>
    refine h.host rfl [] (append_nil _).symm le_rfl rfl (fun ns hns => hmade ns ?_) (by simp)
      hoffers (fun ns hns => hmade ns ?_) fun ns hns => h.unoffered host hup ns ?_
    · rw [hrotation]
      exact hns
    · rw [hrotation]
      exact hns
    · rw [hrotation]
      exact hns
  | completes hrotation =>
    refine h.host rfl _ rfl le_rfl rfl h.current (by simp) hoffers (fun ns hns => hmade ns ?_)
      fun ns hns => ?_
    · rw [hrotation]
      exact hns
    · obtain ⟨hnot, hclear⟩ := h.unoffered host hup ns (by rw [hrotation]; exact hns)
      refine ⟨hnot, fun peer hin => hclear peer ?_⟩
      exact (mem_append.mp hin).resolve_right (by simp)
  | marks hrotation hdir =>
    refine h.host rfl [] (append_nil _).symm le_rfl ?_ ?_ (by simp) hoffers
      (fun ns hns => hmade ns ?_) fun ns hns => h.unoffered host hup ns ?_
    · obtain rfl | ⟨rfl, -⟩ := hdir <;> rfl
    · obtain rfl | ⟨rfl, -⟩ := hdir <;> exact h.current
    · rw [hrotation]
      exact hns
    · rw [hrotation]
      exact hns
  | reimports hrotation =>
    refine hgoes rfl (fun ns hns => ?_) fun ns hns => ?_
    · rw [hrotation]
      exact hns
    · rw [hrotation]
      exact hns
  | refreshes hrotation =>
    have hlt := hmade _ (by rw [hrotation]; rfl)
    refine h.host rfl [] (append_nil _).symm le_rfl rfl h.current (by simp) (fun ns hns => ?_)
      (fun ns hns => hmade ns (by rw [hrotation]; exact hns)) nofun
    simp only [Host.offers, mem_cons] at hns
    obtain rfl | rfl | hin := hns
    · exact hlt
    · exact hlt
    · exact hoffers ns (by simp only [Host.offers, mem_cons]; exact .inr (.inr hin))
  | retains hrotation
  | lists hrotation => exact hgoes rfl (fun ns hns => by rw [hrotation]; exact hns) nofun
  | hands hrotation =>
    refine h.host rfl _ rfl le_rfl rfl h.current (fun peer ns hin => hmade ns ?_) hoffers
      (fun ns hns => hmade ns (by rw [hrotation]; exact hns)) nofun
    split at hin
    · rw [hrotation]
      simp only [mem_singleton, Mark.handed.injEq] at hin
      rw [hin.2]
      rfl
    · cases hin
  | _ => exact hgoes rfl nofun nofun

theorem step (event : Event) : Handing (State.step site s event) := by
  have hspec := s.step_spec site event
  generalize State.step site s event = t at hspec
  cases hspec with
  | idles => exact h
  | outside hout => exact h.outside (s.outside_step site hout)
  | starts | crashes => exact h.of_not_up le_rfl (fun _ _ => id) h.docId rfl nofun rfl
  | advances hspec => exact h.advance hspec
  | receives hup hspec => exact h.receive hup hspec
  | @stops host hup =>
    have hkeeps : Handing ((s.giveUp host).note []) := h.keeps hup [] (fun _ => id) rfl (by simp)
    rwa [State.note_nil] at hkeeps
  | runs hup hran =>
    exact h.keeps hup _ hran.offers hran.keeps.rotation fun _ _ hin => (hran.handed hin).1
  | rotates hup hspec => exact h.rotate hup hspec

end

end Handing

/-- Whatever happens, a namespace that a rotation has not yet moved to was handed to nobody. -/
theorem namespaces_handed_in_turn (site : Site) (events : List Event) :
    Handing (State.after site events) := by
  have hrun : Along (State.step site) (fun _ _ => True) .initial events :=
    .of_forall (fun _ _ => trivial) _ events
  exact hrun.invariant (fun _ event h _ => h.step event) .initial

end Artel.Workspace
