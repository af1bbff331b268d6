import Artel.Workspace.Genesis

namespace Artel.Workspace

def StateDir.current (dir : StateDir) : Option Namespace := dir.currentNamespace <|> dir.docId

structure Host.Unrotated (h h' : Host) : Prop where
  upgradeSecret : h'.upgradeSecret = h.upgradeSecret
  currentWriteTicket : h'.currentWriteTicket = h.currentWriteTicket
  doc : h'.doc = h.doc
  namespaceEpoch : h'.namespaceEpoch = h.namespaceEpoch
  rotation : h'.rotation = h.rotation

theorem Host.Keeps.unrotated {h h' : Host} (hkeeps : h.Keeps h') : h.Unrotated h' :=
  ⟨hkeeps.upgradeSecret, hkeeps.currentWriteTicket, hkeeps.doc, hkeeps.namespaceEpoch,
    hkeeps.rotation⟩

namespace State

/-- What a step can do to the files of a rotation and to what a host keeps of it. -/
inductive Turns (site : Site) (s : State) : Event → State → Prop
  | idles {event : Event} {t : State} : t.dir = s.dir → t.process = s.process →
      Turns site s event t
  | aside {event : Event} {t : State} {h h' : Host} : t.dir = s.dir → s.process = .up h →
      t.process = .up h' → h.Unrotated h' → Turns site s event t
  | resets {event : Event} {t : State} : t.dir = s.dir →
      (t.process = .down ∨ t.process = .opening .start) → Turns site s event t
  | advances {opens : Bool} {t : State} : Advances site s opens t → Turns site s (.advance opens) t
  | rotates {h : Host} {answer : RotateAnswer} {t : State} : s.process = .up h →
      Rotates s h answer t → Turns site s (.rotate answer) t

theorem step_turns (site : Site) (s : State) (event : Event) :
    Turns site s event (step site s event) := by
  have hspec := s.step_spec site event
  generalize ht : step site s event = t at hspec
  cases hspec with
  | idles => exact .idles rfl rfl
  | outside hout =>
    have houtside := s.outside_step site hout
    obtain hsame | ⟨h, listener, hup, hup'⟩ := houtside.process
    · exact .idles houtside.dir hsame
    · exact .aside houtside.dir hup hup' ⟨rfl, rfl, rfl, rfl, rfl⟩
  | starts => exact .resets rfl (.inr rfl)
  | advances hspec => exact .advances hspec
  | receives hup hspec =>
    cases hspec with
    | stays => exact .idles rfl rfl
    | handles _ hhandled =>
      have hsame := hhandled.keeps.unrotated
      exact .aside rfl hup rfl ⟨hsame.upgradeSecret, hsame.currentWriteTicket, hsame.doc,
        hsame.namespaceEpoch, hsame.rotation⟩
    | completes | joins | gaps => exact .aside rfl hup rfl ⟨rfl, rfl, rfl, rfl, rfl⟩
  | stops hup => exact .aside rfl hup rfl ⟨rfl, rfl, rfl, rfl, rfl⟩
  | runs hup hran => exact .aside rfl hup rfl hran.keeps.unrotated
  | rotates hup hspec => exact .rotates hup hspec
  | crashes => exact .resets rfl (.inl rfl)

end State

/-- The epoch that the file should hold, written before the host counts it. -/
def Process.epoch : Process → Option ℕ
  | .down | .opening .start | .opening (.creating _) | .opening (.recorded _) => none
  | .opening (.opened doc) | .opening (.recovered doc _) | .opening (.registered doc _)
  | .opening (.upgraded doc _) => some doc.epoch
  | .up h =>
    match h.rotation with
    | .rotated _ outcome => some outcome.newEpoch
    | _ => some h.namespaceEpoch

theorem Process.epoch_up {h : Host}
    (hrotation : ∀ signal outcome, h.rotation ≠ .rotated signal outcome) :
    (Process.up h).epoch = some h.namespaceEpoch := by
  cases heq : h.rotation with
  | rotated signal outcome => exact absurd heq (hrotation signal outcome)
  | _ => simp only [Process.epoch, heq]

structure Paired (s : State) : Prop where
  epoch : ∀ e ∈ s.process.epoch, s.dir.namespaceEpoch.getD 0 = e
  cells : ∀ h, s.process = .up h → h.upgradeSecret = h.currentWriteTicket.1
  named : ∀ h signal ns, s.process = .up h → h.rotation = .named signal ns →
    s.dir.currentNamespace = some ns

namespace Paired

variable {site : Site} {s t : State}

theorem of_not_up (hup : t.process.isUp = false)
    (hepoch : ∀ e ∈ t.process.epoch, t.dir.namespaceEpoch.getD 0 = e) : Paired t :=
  ⟨hepoch, fun h hh => absurd hh (Process.ne_up hup h),
    fun h _ _ hh => absurd hh (Process.ne_up hup h)⟩

theorem initial : Paired .initial := of_not_up rfl nofun

theorem advance (h : Paired s) {opens : Bool} (hspec : State.Advances site s opens t) :
    Paired t := by
  have hgoes : ∀ {t : State}, t.process.isUp = false →
      t.dir.namespaceEpoch = s.dir.namespaceEpoch → t.process.epoch = s.process.epoch → Paired t := by
    intro t hup hfile hepoch
    refine of_not_up hup fun e he => ?_
    rw [hfile]
    exact h.epoch e (hepoch ▸ he)
  have hdir : ∀ g, (s.hostSession g).dir.namespaceEpoch = s.dir.namespaceEpoch := fun g => by
    rw [(s.outside_hostSession g).dir]
  cases hspec with
  | stays => exact h
  | creates | records | fails => exact of_not_up rfl nofun
  | reopens | clears =>
    refine of_not_up rfl fun e he => ?_
    cases he
    rfl
  | recovers hprocess => exact hgoes rfl rfl (by rw [hprocess]; rfl)
  | resets hprocess => exact hgoes rfl rfl (by rw [hprocess]; rfl)
  | registers hprocess => exact hgoes rfl (hdir _) (by rw [hprocess]; rfl)
  | upgrades hprocess => exact hgoes rfl (hdir _) (by rw [hprocess]; rfl)
  | @subscribes doc mark r hprocess hr =>
    rw [State.bringUp_eq hr]
    refine ⟨fun e he => h.epoch e ?_, fun h' hh' => ?_, fun h' signal ns hh' hrotation => ?_⟩
    · rw [hprocess]
      exact he
    · cases hh'
      rfl
    · cases hh'
      cases hrotation

theorem rotate (h : Paired s) {host : Host} {answer : RotateAnswer} (hup : s.process = .up host)
    (hspec : State.Rotates s host answer t) : Paired t := by
  have hcells := h.cells host hup
  -- the epoch file changes at one step only, and the host counts it at the next
  have hgoes : ∀ {t : State} {host' : Host}, t.process = .up host' →
      t.dir.namespaceEpoch = s.dir.namespaceEpoch →
      (Process.up host').epoch = (Process.up host).epoch →
      host'.upgradeSecret = host'.currentWriteTicket.1 →
      (∀ signal ns, host'.rotation = .named signal ns → t.dir.currentNamespace = some ns) →
      Paired t := by
    intro t host' hup' hfile hepoch hpair hnamed
    refine ⟨fun e he => ?_, fun h' hh' => ?_, fun h' signal ns hh' hrotation => ?_⟩
    · rw [hfile]
      rw [hup', hepoch, ← hup] at he
      exact h.epoch e he
    · obtain rfl : host' = h' := by simpa [hup'] using hh'
      exact hpair
    · obtain rfl : host' = h' := by simpa [hup'] using hh'
      exact hnamed signal ns hrotation
  cases hspec with
  | stays => exact h
  | skips => exact hgoes rfl rfl rfl hcells fun signal ns => h.named host signal ns hup
  | abandons _ hwaits =>
    refine hgoes rfl rfl ?_ hcells nofun
    rw [Process.epoch_up (h := host) (by rintro _ _ heq; simp [heq, Rotation.waits] at hwaits)]
    rfl
  | faults _ hfallible =>
    refine hgoes rfl rfl ?_ hcells nofun
    rw [Process.epoch_up (h := host) (by rintro _ _ heq; simp [heq, Rotation.fallible] at hfallible)]
    rfl
  | names hrotation =>
    refine hgoes rfl rfl (by simp [Process.epoch, hrotation]) hcells fun signal ns heq => ?_
    cases heq
    rfl
  | completes hrotation =>
    refine ⟨fun e he => ?_, fun h' hh' => ?_, fun h' signal ns hh' heq => ?_⟩
    · cases he
      rfl
    · cases hh'
      exact hcells
    · cases hh'
      cases heq
  | @marks signal outcome dir hrotation hdir =>
    have hfile : dir.namespaceEpoch = s.dir.namespaceEpoch := by
      obtain rfl | ⟨rfl, -⟩ := hdir <;> rfl
    exact hgoes rfl hfile (by simp [Process.epoch, hrotation]) hcells nofun
  | refreshes hrotation => exact hgoes rfl rfl (by simp [Process.epoch, hrotation]) rfl nofun
  | _ => exact hgoes rfl rfl (by simp [Process.epoch, *]) hcells nofun

theorem step (h : Paired s) (event : Event) : Paired (State.step site s event) := by
  have hspec := s.step_turns site event
  generalize State.step site s event = t at hspec
  cases hspec with
  | idles hdir hprocess =>
    refine ⟨fun e he => ?_, fun h' hh' => h.cells h' (hprocess ▸ hh'), fun h' signal ns hh' => ?_⟩
    · rw [hdir]
      exact h.epoch e (hprocess ▸ he)
    · rw [hdir]
      exact h.named h' signal ns (hprocess ▸ hh')
  | @aside _ _ host host' hdir hup hup' hsame =>
    refine ⟨fun e he => ?_, fun h' hh' => ?_, fun h' signal ns hh' hrotation => ?_⟩
    · rw [hdir]
      refine h.epoch e ?_
      rw [hup'] at he
      rw [hup]
      simpa only [Process.epoch, hsame.rotation, hsame.namespaceEpoch] using he
    · obtain rfl : host' = h' := by simpa [hup'] using hh'
      rw [hsame.upgradeSecret, hsame.currentWriteTicket]
      exact h.cells host hup
    · obtain rfl : host' = h' := by simpa [hup'] using hh'
      rw [hdir]
      exact h.named host signal ns hup (hsame.rotation ▸ hrotation)
  | resets hdir hprocess =>
    obtain hprocess | hprocess := hprocess
    · exact of_not_up (by rw [hprocess]; rfl) (by simp [hprocess, Process.epoch])
    · exact of_not_up (by rw [hprocess]; rfl) (by simp [hprocess, Process.epoch])
  | advances hspec => exact h.advance hspec
  | rotates hup hspec => exact h.rotate hup hspec

theorem after (site : Site) (events : List Event) : Paired (State.after site events) :=
  (Along.of_forall (C := fun _ _ => True) (fun _ _ => trivial) _ events).invariant (I := Paired)
    (fun _ event h _ => h.step event) initial

end Paired

/-- No step of `handle_host_evict` fails once `current-namespace` is written. -/
def Host.intact (h : Host) (answer : RotateAnswer) : Bool :=
  match h.rotation with
  | .named _ _ => !answer.fault
  | .marked _ => answer.swapped
  | .reimported _ => answer.cleaned && decide (h.peerMap.readiness ≠ .closed)
  | _ => true

/-- No step fails, and a genesis is made only without a current namespace. -/
def Intact (s : State) : Event → Prop
  | .advance opens => s.process.isStarting = true →
      (opens && s.dir.docId.isSome) = true ∨ s.dir.currentNamespace = none
  | .rotate answer =>
    match s.process with
    | .up h => h.intact answer = true
    | .down | .opening _ => True
  | _ => True

instance decidableIntact (answer : RotateAnswer) : (process : Process) → Decidable
    (match process with
      | .up h => h.intact answer = true
      | .down | .opening _ => True)
  | .up h => inferInstanceAs (Decidable (h.intact answer = true))
  | .down | .opening _ => .isTrue trivial

instance (s : State) : (event : Event) → Decidable (Intact s event)
  | .advance opens => inferInstanceAs (Decidable (s.process.isStarting = true →
      (opens && s.dir.docId.isSome) = true ∨ s.dir.currentNamespace = none))
  | .rotate answer => decidableIntact answer s.process
  | .rehost | .leave _ | .send _ _ | .emit _ | .peerJoined _ _ | .restartDaemon | .lose _ | .start
  | .receive _ | .reconnect | .giveUp | .task _ _ | .crash => .isTrue trivial

/-- Which of the four name the namespace `ns`, by how far the process has got. -/
def Process.Follows (ns : Namespace) : Process → Prop
  | .down | .opening .start | .opening (.creating _) => True
  | .opening (.recorded made) => made = ns
  | .opening (.opened doc) | .opening (.recovered doc _) | .opening (.registered doc _)
  | .opening (.upgraded doc _) => doc.doc = ns
  | .up h =>
    match h.rotation with
    | .idle | .waiting _ | .collecting _ | .minted _ _ | .refreshed _ | .distributing _ _ =>
      h.doc = ns ∧ h.upgradeSecret = ns
    | .named _ minted => minted = ns
    | .rotated _ outcome | .marked outcome => outcome.newNamespace = ns
    | .reimported outcome => outcome.newNamespace = ns ∧ h.doc = ns

/-- The process goes by the namespace that the state directory names. -/
structure Following (s : State) : Prop where
  process : ∀ ns, s.dir.current = some ns → s.process.Follows ns
  creating : ∀ ns, s.process = .opening (.creating ns) → s.dir.currentNamespace = none

namespace Following

variable {site : Site} {s t : State}

theorem advance (h : Following s) {opens : Bool} (hintact : Intact s (.advance opens))
    (hspec : State.Advances site s opens t) : Following t := by
  have hgoes : ∀ {t : State}, t.dir.current = s.dir.current →
      (∀ ns, s.process.Follows ns → t.process.Follows ns) →
      (∀ ns, t.process ≠ .opening (.creating ns)) → Following t := fun hdir hfollows hnot =>
    ⟨fun ns hns => hfollows ns (h.process ns (hdir ▸ hns)), fun ns hns => absurd hns (hnot ns)⟩
  have hdir : ∀ g, (s.hostSession g).dir.current = s.dir.current := fun g => by
    rw [(s.outside_hostSession g).dir]
  cases hspec with
  | stays => exact h
  | creates hprocess hwhy =>
    refine ⟨fun _ _ => trivial, fun _ _ => ?_⟩
    obtain hopened | hnone := hintact (by rw [hprocess]; rfl)
    · obtain hnone | rfl := hwhy
      · simp [hnone] at hopened
      · simp at hopened
    · exact hnone
  | @reopens genesis hprocess hdoc =>
    refine ⟨fun ns hns => ?_, nofun⟩
    change s.dir.current = some ns at hns
    change s.dir.currentNamespace.getD genesis = ns
    unfold StateDir.current at hns
    rw [hdoc] at hns
    cases hcurrent : s.dir.currentNamespace with
    | none => simpa [hcurrent] using hns
    | some current => simpa [hcurrent] using hns
  | @records ns hprocess =>
    refine ⟨fun ns' hns' => ?_, nofun⟩
    have hnone : s.dir.currentNamespace = none := h.creating ns hprocess
    change (s.dir.currentNamespace <|> some ns) = some ns' at hns'
    rw [hnone] at hns'
    exact Option.some.inj hns'
  | clears hprocess
  | recovers hprocess
  | resets hprocess => exact hgoes rfl (fun ns => by rw [hprocess]; exact id) nofun
  | registers hprocess
  | upgrades hprocess => exact hgoes (hdir _) (fun ns => by rw [hprocess]; exact id) nofun
  | fails => exact ⟨fun _ _ => trivial, nofun⟩
  | subscribes hprocess hr =>
    rw [State.bringUp_eq hr]
    exact hgoes rfl (fun ns => by rw [hprocess]; exact fun hdoc => ⟨hdoc, hdoc⟩) nofun

theorem of_up {h : Host} (hup : t.process = .up h)
    (hfollows : ∀ ns, t.dir.current = some ns → (Process.up h).Follows ns) : Following t := by
  refine ⟨fun ns hns => hup ▸ hfollows ns hns, fun ns hns => ?_⟩
  rw [hup] at hns
  cases hns

theorem rotate (h : Following s) {host : Host} {answer : RotateAnswer} (hup : s.process = .up host)
    (hintact : host.intact answer = true) (hspec : State.Rotates s host answer t) :
    Following t := by
  have hfollows : ∀ ns, s.dir.current = some ns → (Process.up host).Follows ns := fun ns hns =>
    hup ▸ h.process ns hns
  have hgoes : ∀ {t : State} {host' : Host}, t.process = .up host' →
      t.dir.current = s.dir.current →
      (∀ ns, (Process.up host).Follows ns → (Process.up host').Follows ns) → Following t :=
    fun hup' hdir hstep => of_up hup' fun ns hns => hstep ns (hfollows ns (hdir ▸ hns))
  cases hspec with
  | stays => exact h
  | abandons _ hwaits =>
    refine hgoes rfl rfl fun ns => ?_
    cases hrotation : host.rotation <;> simp [Process.Follows, Rotation.waits, hrotation] at hwaits ⊢
  | faults hfault hfallible =>
    refine hgoes rfl rfl fun ns => ?_
    cases hrotation : host.rotation <;>
      simp [Process.Follows, Rotation.fallible, Host.intact, hrotation, hfault]
        at hfallible hintact ⊢
  | names hrotation => exact of_up rfl fun ns hns => Option.some.inj hns
  | @marks signal outcome dir hrotation hdir =>
    have hcurrent : dir.current = s.dir.current := by
      obtain rfl | ⟨rfl, -⟩ := hdir <;> rfl
    exact hgoes rfl hcurrent fun ns => by simp [Process.Follows, hrotation]
  | reimports hrotation hdoc =>
    obtain rfl | ⟨-, hswapped⟩ := hdoc
    · exact hgoes rfl rfl fun ns => by simp [Process.Follows, hrotation]
    · simp [Host.intact, hrotation, hswapped] at hintact
  | refreshes hrotation =>
    exact hgoes rfl rfl fun ns => by simp +contextual [Process.Follows, hrotation]
  | retains hrotation hwhy =>
    obtain hclosed | hcleaned := hwhy
    · simp [Host.intact, hrotation, hclosed] at hintact
    · simp [Host.intact, hrotation, hcleaned] at hintact
  | _ => exact hgoes rfl rfl fun ns => by simp [Process.Follows, *]

theorem step (h : Following s) {event : Event} (hintact : Intact s event) :
    Following (State.step site s event) := by
  have hspec := s.step_turns site event
  generalize State.step site s event = t at hspec
  cases hspec with
  | idles hdir hprocess =>
    refine ⟨fun ns hns => ?_, fun ns hns => ?_⟩
    · rw [hprocess]
      exact h.process ns (hdir ▸ hns)
    · rw [hdir]
      exact h.creating ns (hprocess ▸ hns)
  | aside hdir hup hup' hsame =>
    refine of_up hup' fun ns hns => ?_
    have hfollows := h.process ns (hdir ▸ hns)
    rw [hup] at hfollows
    simpa only [Process.Follows, hsame.rotation, hsame.doc, hsame.upgradeSecret] using hfollows
  | resets hdir hprocess =>
    obtain hprocess | hprocess := hprocess
    · exact ⟨fun _ _ => hprocess ▸ trivial, by simp [hprocess]⟩
    · exact ⟨fun _ _ => hprocess ▸ trivial, by simp [hprocess]⟩
  | advances hspec => exact h.advance hintact hspec
  | rotates hup hspec =>
    refine h.rotate hup ?_ hspec
    simpa only [Intact, hup] using hintact

end Following

/-- No workspace runs, or its rotation has just written `current-namespace`. -/
def Process.renewed : Process → Bool
  | .down => true
  | .opening _ => false
  | .up h =>
    match h.rotation with
    | .named _ _ => true
    | _ => false

theorem Following.of_renewed {s : State} (hpaired : Paired s) (hrenewed : s.process.renewed = true) :
    Following s := by
  cases hprocess : s.process with
  | down => exact ⟨fun _ _ => hprocess ▸ trivial, by simp [hprocess]⟩
  | opening phase => simp [hprocess, Process.renewed] at hrenewed
  | up h =>
    cases hrotation : h.rotation with
    | named signal minted =>
      refine .of_up hprocess fun ns hns => ?_
      rw [StateDir.current, hpaired.named h signal minted hprocess hrotation] at hns
      simpa [Process.Follows, hrotation] using hns
    | _ => simp [hprocess, Process.renewed, hrotation] at hrenewed

/-- The cells agree, and without failures doc, file and cells name one namespace. -/
theorem rotation_state_agrees (site : Site) (before later : List Event) (h : Host)
    (hup : (State.after site (before ++ later)).process = .up h) :
    h.upgradeSecret = h.currentWriteTicket.1 ∧
    (h.rotation = .idle →
      (State.after site (before ++ later)).dir.namespaceEpoch.getD 0 = h.namespaceEpoch) ∧
    ((State.after site before).process.renewed = true →
      Along (State.step site) Intact (State.after site before) later → h.rotation = .idle →
      (State.after site (before ++ later)).dir.current = some h.doc ∧ h.upgradeSecret = h.doc ∧
        h.currentWriteTicket.1 = h.doc) := by
  have hpaired := Paired.after site (before ++ later)
  have hcells := hpaired.cells h hup
  refine ⟨hcells, fun hidle => hpaired.epoch _ ?_, fun hrenewed hrun hidle => ?_⟩
  · rw [hup, Process.epoch_up (by simp [hidle])]
    rfl
  · have hdoc := State.genesis_after site (before ++ later) h.genesis (by rw [hup]; rfl)
    have hfollowing : Following (State.after site (before ++ later)) := by
      rw [State.after, List.foldl_append]
      exact hrun.invariant (I := Following) (fun _ _ h hintact => h.step hintact)
        (.of_renewed (Paired.after site before) hrenewed)
    obtain ⟨ns, hns⟩ : ∃ ns, (State.after site (before ++ later)).dir.current = some ns := by
      rw [StateDir.current, hdoc]
      cases (State.after site (before ++ later)).dir.currentNamespace with
      | none => exact ⟨_, rfl⟩
      | some ns => exact ⟨ns, rfl⟩
    have hfollows := hfollowing.process ns hns
    simp only [hup, Process.Follows, hidle] at hfollows
    obtain ⟨rfl, hsecret⟩ := hfollows
    exact ⟨hns, hsecret, hcells.symm.trans hsecret⟩

namespace Sample

open Artel.Sample

/-- The host revokes a peer, and one step of the rotation ends as given. -/
def evictedWith (k : ℕ) (answer : RotateAnswer) : List Event :=
  hosted ++ [.receive true] ++ delivered (capability 0 1 (.revoke (peer 2))) ++
    List.replicate k (.rotate {}) ++ [.rotate answer] ++ List.replicate (9 - k) (.rotate {})

/-- The host could not move, and rotates again up to `current-namespace`. -/
def evictedTwice : List Event :=
  evictedWith 6 { swapped := false } ++ delivered (capability 0 2 (.revoke (peer 3))) ++
    List.replicate 4 (.rotate {})

theorem rotation_state_agrees_again :
    ∃ hosted ∈ (State.after site (evictedTwice ++ List.replicate 6 (.rotate {}))).hosting,
      hosted.1.rotation = .idle ∧ hosted.1.doc = 2 ∧ hosted.1.upgradeSecret = hosted.1.doc := by
  have hrun : Along (State.step site) Intact (State.after site evictedTwice)
      (List.replicate 6 (.rotate {})) := by
    decide +kernel
  have hhosting : ∃ hosted ∈
      (State.after site (evictedTwice ++ List.replicate 6 (.rotate {}))).hosting,
      hosted.1.rotation = .idle ∧ hosted.1.doc = 2 := by
    decide +kernel
  obtain ⟨⟨h, r⟩, hhost, hidle, hdoc⟩ := hhosting
  have hagrees := (rotation_state_agrees site evictedTwice (List.replicate 6 (.rotate {})) h
    (State.hosting_eq_some.mp hhost).1).2.2 (by decide +kernel) hrun hidle
  exact ⟨(h, r), hhost, hidle, hdoc, hagrees.2.1⟩

/-- The epoch cannot be written, the host cannot move, or a member cannot be removed. -/
theorem failed_rotation_disagrees :
    (State.after site (evictedWith 4 { fault := true })).dir.current = some 1 ∧
    (∃ hosted ∈ (State.after site (evictedWith 4 { fault := true })).hosting,
      hosted.1.rotation = .idle ∧ hosted.1.doc = 0) ∧
    (∃ hosted ∈ (State.after site (evictedWith 6 { swapped := false })).hosting,
      hosted.1.rotation = .idle ∧ hosted.1.doc = 0 ∧ hosted.1.upgradeSecret = 1) ∧
    ∃ hosted ∈ (State.after site (evictedWith 7 { cleaned := false })).hosting,
      hosted.1.rotation = .idle ∧ hosted.1.doc = 1 ∧ hosted.1.upgradeSecret = 0 := by
  decide +kernel

end Sample

end Artel.Workspace
