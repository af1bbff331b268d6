import Artel.Workspace.Machine

namespace Artel.Workspace

def Process.returned : Process → Option OpenedDoc
  | .opening (.opened doc) | .opening (.recovered doc _) | .opening (.registered doc _)
  | .opening (.upgraded doc _) => some doc
  | .down | .opening .start | .opening (.creating _) | .opening (.recorded _) | .up _ => none

def Process.isUp : Process → Bool
  | .up _ => true
  | .down | .opening _ => false

theorem Process.ne_up {process : Process} (hup : process.isUp = false) (h : Host) :
    process ≠ .up h := by
  rintro rfl
  cases hup

theorem State.hosting_ne {s : State} (hup : s.process.isUp = false) (h : Host) (r : Record) :
    s.hosting ≠ some (h, r) := fun hhosting =>
  Process.ne_up hup h (State.hosting_eq_some.mp hhosting).1

def Process.isStarting : Process → Bool
  | .opening .start => true
  | _ => false

/-- Where `handle_host_evict` ends if the projection is closed. -/
def Rotation.waits : Rotation → Bool
  | .waiting _ | .collecting _ | .refreshed _ | .distributing _ _ => true
  | .idle | .minted _ _ | .named _ _ | .rotated _ _ | .marked _ | .reimported _ => false

theorem Rotation.ne_marked_of_waits {rotation : Rotation} (h : rotation.waits = true)
    (outcome : RotationOutcome) : rotation ≠ .marked outcome := by
  rintro rfl
  cases h

def Rotation.fallible : Rotation → Bool
  | .collecting _ | .minted _ _ | .named _ _ => true
  | .idle | .waiting _ | .rotated _ _ | .marked _ | .reimported _ | .refreshed _
  | .distributing _ _ => false

namespace State

inductive Advances (site : Site) (s : State) (opens : Bool) : State → Prop
  | stays : (∀ phase, s.process ≠ .opening phase) → Advances site s opens s
  | creates : s.process = .opening .start → (s.dir.docId = none ∨ opens = false) →
      Advances site s opens s.create
  | reopens {genesis : Namespace} : s.process = .opening .start → s.dir.docId = some genesis →
      opens = true → Advances site s opens
        (s.setOpening (.opened ⟨s.dir.currentNamespace.getD genesis, genesis, true,
          s.dir.namespaceEpoch.getD 0⟩))
  | records {ns : Namespace} : s.process = .opening (.creating ns) →
      Advances site s opens
        ({ s with dir := { s.dir with docId := some ns } }.setOpening (.recorded ns))
  | clears {ns : Namespace} : s.process = .opening (.recorded ns) →
      Advances site s opens
        ({ s with dir := { s.dir with namespaceEpoch := none } }.setOpening
          (.opened ⟨ns, ns, false, 0⟩))
  | recovers {doc : OpenedDoc} : s.process = .opening (.opened doc) → doc.returning = true →
      Advances site s opens (s.setOpening (.recovered doc s.dir.mark))
  | resets {doc : OpenedDoc} : s.process = .opening (.opened doc) → doc.returning = false →
      Advances site s opens
        ({ s with dir := { s.dir with rotatedRevokeSeq := none } }.setOpening
          (.recovered doc Seq.ZERO))
  | registers {doc : OpenedDoc} {mark : Seq} : s.process = .opening (.recovered doc mark) →
      Advances site s opens ((s.hostSession doc.genesis).setOpening (.registered doc mark))
  | upgrades {doc : OpenedDoc} {mark : Seq} : s.process = .opening (.registered doc mark) →
      Advances site s opens ((s.hostSession doc.genesis).setOpening (.upgraded doc mark))
  | fails {doc : OpenedDoc} {mark : Seq} : s.process = .opening (.upgraded doc mark) →
      s.sessions doc.genesis = none → Advances site s opens { s with process := .down }
  | subscribes {doc : OpenedDoc} {mark : Seq} {r : Record} :
      s.process = .opening (.upgraded doc mark) → s.sessions doc.genesis = some r →
      Advances site s opens (s.bringUp site doc mark)

variable {s : State}

theorem bringUp_eq {site : Site} {doc : OpenedDoc} {mark : Seq} {r : Record}
    (hr : s.sessions doc.genesis = some r) :
    s.bringUp site doc mark = s.setHost
      { genesis := doc.genesis
        peerMap := .replaying site.host
        listener := .streaming r.channel (r.since Seq.ZERO ++ [.replayComplete])
        lastSeq := none
        upgradeSecret := doc.doc
        currentWriteTicket := (doc.doc, doc.epoch)
        redelivered := fun _ => none
        tasks := []
        signals := []
        doc := doc.doc
        namespaceEpoch := doc.epoch
        rotatedRevokeSeq := mark
        rotation := .idle } := by
  rw [bringUp, hr]

theorem advance_spec (site : Site) (s : State) (opens : Bool) :
    Advances site s opens (s.advance site opens) := by
  unfold advance
  cases hprocess : s.process with
  | down => exact .stays (by simp [hprocess])
  | up h => exact .stays (by simp [hprocess])
  | opening phase =>
    cases phase with
    | start =>
      dsimp only [openOrCreateDoc]
      cases hdoc : s.dir.docId with
      | none => exact .creates hprocess (.inl hdoc)
      | some genesis =>
        cases opens with
        | true => exact .reopens hprocess hdoc rfl
        | false => exact .creates hprocess (.inr rfl)
    | creating ns => exact .records hprocess
    | recorded ns => exact .clears hprocess
    | opened doc =>
      dsimp only [recoverMark]
      split
      · exact .recovers hprocess ‹_›
      · exact .resets hprocess (Bool.eq_false_iff.mpr ‹_›)
    | recovered doc mark => exact .registers hprocess
    | registered doc mark => exact .upgrades hprocess
    | upgraded doc mark =>
      cases hsession : s.sessions doc.genesis with
      | none =>
        have hfails : s.bringUp site doc mark = { s with process := .down } := by
          simp [bringUp, hsession]
        dsimp only
        rw [hfails]
        exact .fails hprocess hsession
      | some r => exact .subscribes hprocess hsession

@[simp] theorem note_nil (s : State) : s.note [] = s := by simp [note]

theorem trace_note (s : State) (marks : List Mark) : (s.note marks).trace = s.trace ++ marks := rfl

inductive Receives (site : Site) (s : State) (h : Host) (cleaned : Bool) : State → Prop
  | stays : Receives site s h cleaned s
  | handles {channel : ℕ} {m : SessionMessage} {rest : List CapEvent} {h' : Host} :
      h.listener = .streaming channel (.message m :: rest) →
      Host.Handled site { h with listener := .streaming channel rest } m h' →
      Receives site s h cleaned ((s.setHost h').note (h.messageMarks m))
  | completes {channel : ℕ} {rest : List CapEvent} {map : PeerMap} :
      h.listener = .streaming channel (.replayComplete :: rest) →
      (map = h.peerMap.finishReplay ∨ map = h.peerMap.close ∧ cleaned = false) →
      Receives site s h cleaned
        (s.setHost { h with listener := .streaming channel rest, peerMap := map })
  | joins {channel : ℕ} {peer : PeerId} {rest : List CapEvent} {spawned : List Task} :
      h.listener = .streaming channel (.peerJoined peer :: rest) →
      (∀ task ∈ spawned, task = .upgrade peer h.upgradeSecret) →
      Receives site s h cleaned
        (s.setHost { h with listener := .streaming channel rest, tasks := h.tasks ++ spawned })
  | gaps {channel : ℕ} {rest : List CapEvent} :
      h.listener = .streaming channel (.gap :: rest) →
      Receives site s h cleaned
        (s.setHost { h with listener := .reconnecting, peerMap := h.peerMap.beginReplay })

theorem finishReplay_of_isReady {map : PeerMap} (h : map.isReady = true) :
    map.finishReplay = map := by
  have hready : map.readiness = .ready := by simpa [PeerMap.isReady] using h
  simp [PeerMap.finishReplay, hready]

theorem receive_spec (site : Site) (s : State) (h : Host) (cleaned : Bool) :
    Receives site s h cleaned (s.receive site cleaned h) := by
  unfold receive
  cases hlistener : h.listener with
  | reconnecting => exact .stays
  | stopped => exact .stays
  | streaming channel events =>
    cases events with
    | nil => exact .stays
    | cons event rest =>
      cases event with
      | message m =>
        obtain ⟨hhandled, hmarks⟩ :=
          { h with listener := .streaming channel rest }.handleMessage_spec site m
        dsimp only [Host.handleCapEvent]
        rw [hmarks]
        exact .handles hlistener hhandled
      | replayComplete =>
        dsimp only [Host.handleCapEvent, Host.completeCapReplay]
        rw [note_nil]
        split
        · rename_i hready
          exact .completes hlistener (.inl (finishReplay_of_isReady hready).symm)
        split
        · rename_i hfails
          refine .completes hlistener (.inr ⟨rfl, ?_⟩)
          simp only [Bool.and_eq_true, Bool.not_eq_true'] at hfails
          exact hfails.1.2
        · exact .completes hlistener (.inl rfl)
      | peerJoined peer =>
        dsimp only [Host.handleCapEvent]
        split
        · rw [note_nil]
          refine .joins hlistener ?_
          simp
        · rw [note_nil]
          have hjoins : Receives site s h cleaned
              (s.setHost { h with listener := .streaming channel rest, tasks := h.tasks ++ [] }) :=
            .joins hlistener nofun
          rwa [List.append_nil] at hjoins
      | gap =>
        dsimp only [Host.handleCapEvent]
        rw [note_nil]
        exact .gaps hlistener

inductive Rotates (s : State) (h : Host) (answer : RotateAnswer) : State → Prop
  | stays : Rotates s h answer s
  | skips {signal : RotationSignal} {rest : List RotationSignal} : h.rotation = .idle →
      h.signals = signal :: rest → signal.revokeSeq ≤ h.rotatedRevokeSeq →
      Rotates s h answer (s.setHost { h with signals := rest })
  | takes {signal : RotationSignal} {rest : List RotationSignal} : h.rotation = .idle →
      h.signals = signal :: rest → h.rotatedRevokeSeq < signal.revokeSeq →
      Rotates s h answer (s.setHost { h with signals := rest, rotation := .waiting signal })
  /-- The projection was closed. -/
  | abandons : h.peerMap.readiness = .closed → h.rotation.waits = true →
      Rotates s h answer (s.setHost { h with rotation := .idle })
  /-- `rotate_namespace` failed. -/
  | faults : answer.fault = true → h.rotation.fallible = true →
      Rotates s h answer (s.setHost { h with rotation := .idle })
  | begins {signal : RotationSignal} : h.rotation = .waiting signal → h.peerMap.readiness = .ready →
      Rotates s h answer
        ((s.setHost { h with rotation := .collecting signal }).note [.began signal])
  | mints {signal : RotationSignal} : h.rotation = .collecting signal →
      h.peerMap.readiness = .ready →
      Rotates s h answer
        ({ s with nextNamespace := s.nextNamespace + 1 }.setHost
          { h with rotation := .minted signal s.nextNamespace })
  | names {signal : RotationSignal} {ns : Namespace} : h.rotation = .minted signal ns →
      Rotates s h answer
        ({ s with dir := { s.dir with currentNamespace := some ns } }.setHost
          { h with rotation := .named signal ns })
  | completes {signal : RotationSignal} {ns : Namespace} : h.rotation = .named signal ns →
      Rotates s h answer
        (({ s with dir := { s.dir with namespaceEpoch := some (h.namespaceEpoch + 1) } }.setHost
          { h with rotation := .rotated signal ⟨ns, h.namespaceEpoch + 1⟩ }).note [.completed ns])
  | marks {signal : RotationSignal} {outcome : RotationOutcome} {dir : StateDir} :
      h.rotation = .rotated signal outcome →
      (dir = { s.dir with rotatedRevokeSeq := some signal.revokeSeq } ∨
        dir = s.dir ∧ answer.persisted = false) →
      Rotates s h answer
        ({ s with dir := dir }.setHost
          { h with
            namespaceEpoch := outcome.newEpoch
            rotatedRevokeSeq := signal.revokeSeq
            rotation := .marked outcome })
  | reimports {outcome : RotationOutcome} {doc : Namespace} : h.rotation = .marked outcome →
      (doc = outcome.newNamespace ∨ doc = h.doc ∧ answer.swapped = false) →
      Rotates s h answer (s.setHost { h with doc := doc, rotation := .reimported outcome })
  | refreshes {outcome : RotationOutcome} : h.rotation = .reimported outcome →
      h.peerMap.readiness = .ready →
      Rotates s h answer
        (s.setHost
          { h with
            upgradeSecret := outcome.newNamespace
            currentWriteTicket := (outcome.newNamespace, outcome.newEpoch)
            rotation := .refreshed outcome })
  /-- The cells keep the old namespace. -/
  | retains {outcome : RotationOutcome} : h.rotation = .reimported outcome →
      (h.peerMap.readiness = .closed ∨ answer.cleaned = false) →
      Rotates s h answer (s.setHost { h with rotation := .refreshed outcome })
  | lists {outcome : RotationOutcome} : h.rotation = .refreshed outcome →
      h.peerMap.readiness = .ready →
      Rotates s h answer
        (s.setHost { h with rotation := .distributing outcome h.peerMap.rwPeersExceptHost })
  | hands {outcome : RotationOutcome} {left : Finset PeerId} {peer : PeerId} :
      h.rotation = .distributing outcome left → h.peerMap.readiness = .ready → peer ∈ left →
      Rotates s h answer
        ((s.setHost { h with rotation := .distributing outcome (left.erase peer) }).note
          (if h.peerMap.hasRw peer then [.handed peer outcome.newNamespace] else []))
  | ends {outcome : RotationOutcome} : h.rotation = .distributing outcome ∅ →
      Rotates s h answer (s.setHost { h with rotation := .idle })

variable {h : Host} {answer : RotateAnswer}

theorem Rotates.await {closed ready : State}
    (hclosed : h.peerMap.readiness = .closed → Rotates s h answer closed)
    (hready : h.peerMap.readiness = .ready → Rotates s h answer ready) :
    Rotates s h answer (s.awaitProjection h closed ready) := by
  unfold awaitProjection
  cases hstate : h.peerMap.readiness with
  | initializing => exact .stays
  | replaying => exact .stays
  | closed => exact hclosed hstate
  | ready => exact hready hstate

theorem rotate_spec (s : State) (h : Host) (answer : RotateAnswer) :
    Rotates s h answer (s.rotate answer h) := by
  have habandons : ∀ {rotation : Rotation}, h.rotation = rotation → rotation.waits = true →
      h.peerMap.readiness = .closed → Rotates s h answer (s.setHost { h with rotation := .idle }) :=
    fun hrotation hwaits hclosed => .abandons hclosed (hrotation ▸ hwaits)
  have hfaults : ∀ {rotation : Rotation}, h.rotation = rotation → rotation.fallible = true →
      answer.fault = true → Rotates s h answer (s.setHost { h with rotation := .idle }) :=
    fun hrotation hfallible hfault => .faults hfault (hrotation ▸ hfallible)
  unfold rotate
  cases hrotation : h.rotation with
  | idle =>
    cases hsignals : h.signals with
    | nil => exact .stays
    | cons signal rest =>
      dsimp only
      split
      · have hskips : Rotates s h answer (s.setHost { h with signals := rest }) :=
          .skips hrotation hsignals ‹_›
        rwa [hrotation] at hskips
      · exact .takes hrotation hsignals (not_le.mp ‹_›)
  | waiting signal => exact .await (habandons hrotation rfl) (.begins hrotation)
  | collecting signal =>
    refine .await (habandons hrotation rfl) fun hready => ?_
    split
    · exact hfaults hrotation rfl ‹_›
    · exact .mints hrotation hready
  | minted signal ns =>
    dsimp only
    split
    · exact hfaults hrotation rfl ‹_›
    · exact .names hrotation
  | named signal ns =>
    dsimp only
    split
    · exact hfaults hrotation rfl ‹_›
    · exact .completes hrotation
  | rotated signal outcome =>
    refine .marks hrotation ?_
    cases answer.persisted with
    | true => exact .inl rfl
    | false => exact .inr ⟨rfl, rfl⟩
  | marked outcome =>
    refine .reimports hrotation ?_
    cases answer.swapped with
    | true => exact .inl rfl
    | false => exact .inr ⟨rfl, rfl⟩
  | reimported outcome =>
    refine .await (fun hclosed => .retains hrotation (.inl hclosed)) fun hready => ?_
    split
    · exact .refreshes hrotation hready
    · rename_i hkept
      refine .retains hrotation (.inr ?_)
      simp only [Bool.or_eq_true, not_or, Bool.not_eq_true] at hkept
      exact hkept.1
  | refreshed outcome => exact .await (habandons hrotation rfl) (.lists hrotation)
  | distributing outcome left =>
    dsimp only
    split
    · rename_i hleft
      subst hleft
      exact .ends hrotation
    cases answer.peer with
    | none => exact .stays
    | some peer =>
      dsimp only
      split
      · rename_i hpeer
        exact .await (habandons hrotation rfl) fun hready => .hands hrotation hready hpeer
      · exact .stays

/-- A step of a task or of the rotation leaves the daemon, the listener and the map alone. -/
structure Within (s t : State) (h h' : Host) : Prop where
  sessions : t.sessions = s.sessions
  pending : t.pending = s.pending
  nextChannel : t.nextChannel = s.nextChannel
  docId : t.dir.docId = s.dir.docId
  nextNamespace : s.nextNamespace ≤ t.nextNamespace
  process : t.process = .up h'
  genesis : h'.genesis = h.genesis
  peerMap : h'.peerMap = h.peerMap
  listener : h'.listener = h.listener
  lastSeq : h'.lastSeq = h.lastSeq

variable {t : State}

theorem Within.seen {h' : Host} (hwithin : Within s t h h') : h'.seen = h.seen := by
  simp [Host.seen, hwithin.lastSeq]

theorem Within.hosting {h' h₀ : Host} {r : Record} (hwithin : Within s t h h')
    (hup : s.process = .up h) (hhosting : t.hosting = some (h₀, r)) :
    h₀ = h' ∧ s.hosting = some (h, r) := by
  obtain ⟨hup₀, hr⟩ := hosting_eq_some.mp hhosting
  obtain rfl : h' = h₀ := by simpa [hwithin.process] using hup₀
  rw [hwithin.sessions, hwithin.genesis] at hr
  exact ⟨rfl, hosting_eq_some.mpr ⟨hup, hr⟩⟩

theorem within_ran {h' : Host} {k : ℕ} {marks : List Mark}
    (hran : Host.Ran h k h' marks) : Within s ((s.setHost h').note marks) h h' :=
  ⟨rfl, rfl, rfl, rfl, le_rfl, rfl, hran.keeps.genesis, hran.peerMap, hran.keeps.listener,
    hran.lastSeq⟩

theorem Rotates.within (hup : s.process = .up h)
    (hspec : Rotates s h answer t) : ∃ h', Within s t h h' := by
  cases hspec with
  | stays => exact ⟨h, rfl, rfl, rfl, rfl, le_rfl, hup, rfl, rfl, rfl, rfl⟩
  | mints => exact ⟨_, rfl, rfl, rfl, rfl, Nat.le_succ _, rfl, rfl, rfl, rfl, rfl⟩
  | marks _ hdir =>
    refine ⟨_, rfl, rfl, rfl, ?_, le_rfl, rfl, rfl, rfl, rfl, rfl⟩
    obtain rfl | ⟨rfl, -⟩ := hdir <;> rfl
  | _ => exact ⟨_, rfl, rfl, rfl, rfl, le_rfl, rfl, rfl, rfl, rfl, rfl⟩

theorem Rotates.files
    (hspec : Rotates s h answer t) :
    (t.dir.mark = s.dir.mark ∨ ∃ signal outcome, h.rotation = .rotated signal outcome ∧
      t.dir.mark = signal.revokeSeq) ∧
    ∃ more, t.trace = s.trace ++ more ∧ ∀ g, .created g ∉ more := by
  have hnil : ∃ more, s.trace = s.trace ++ more ∧ ∀ g, .created g ∉ more :=
    ⟨[], (List.append_nil _).symm, by simp⟩
  cases hspec with
  | begins => exact ⟨.inl rfl, _, rfl, by simp⟩
  | completes => exact ⟨.inl rfl, _, rfl, by simp⟩
  | hands => exact ⟨.inl rfl, _, rfl, by split <;> simp⟩
  | @marks signal outcome dir hrotation hdir =>
    refine ⟨?_, hnil⟩
    obtain rfl | ⟨rfl, -⟩ := hdir
    · exact .inr ⟨signal, outcome, hrotation, rfl⟩
    · exact .inl rfl
  | stays | skips | takes | abandons | faults | mints | names | reimports | refreshes | retains
  | lists | ends => exact ⟨.inl rfl, hnil⟩

theorem withHost_cases (s : State) (f : Host → State) :
    s.withHost f = s ∨ ∃ h, s.process = .up h ∧ s.withHost f = f h := by
  unfold withHost
  cases s.process with
  | down => exact .inl rfl
  | opening phase => exact .inl rfl
  | up h => exact .inr ⟨h, rfl, rfl⟩

inductive Moves (site : Site) (s : State) : Event → State → Prop
  | idles {event : Event} : Moves site s event s
  | outside {event : Event} : event.outside = true → Moves site s event (step site s event)
  | starts : s.process = .down → Moves site s .start (s.setOpening .start)
  | advances {opens : Bool} {t : State} : Advances site s opens t → Moves site s (.advance opens) t
  | receives {h : Host} {cleaned : Bool} {t : State} : s.process = .up h →
      Receives site s h cleaned t → Moves site s (.receive cleaned) t
  | stops {h : Host} : s.process = .up h → Moves site s .giveUp (s.giveUp h)
  | runs {h h' : Host} {k : ℕ} {ok : Bool} {marks : List Mark} : s.process = .up h →
      Host.Ran h k h' marks → Moves site s (.task k ok) ((s.setHost h').note marks)
  | rotates {h : Host} {answer : RotateAnswer} {t : State} : s.process = .up h →
      Rotates s h answer t → Moves site s (.rotate answer) t
  | crashes : Moves site s .crash { s with process := .down }

theorem step_spec (site : Site) (s : State) (event : Event) :
    Moves site s event (step site s event) := by
  have hhost : ∀ {event : Event} {f : Host → State},
      (∀ h, s.process = .up h → Moves site s event (f h)) → Moves site s event (s.withHost f) := by
    intro event f hmoves
    obtain heq | ⟨h, hup, heq⟩ := s.withHost_cases f
    · rw [heq]
      exact .idles
    · rw [heq]
      exact hmoves h hup
  cases event with
  | rehost | leave | send | emit | peerJoined | restartDaemon | lose | reconnect =>
    exact .outside rfl
  | start =>
    cases hprocess : s.process with
    | down =>
      simp only [step, hprocess]
      exact .starts hprocess
    | opening phase | up h =>
      simp only [step, hprocess]
      exact .idles
  | advance opens => exact .advances (s.advance_spec site opens)
  | receive cleaned => exact hhost fun h hup => .receives hup (s.receive_spec site h cleaned)
  | giveUp => exact hhost fun h hup => .stops hup
  | task k ok => exact hhost fun h hup => .runs hup (h.runTask_spec k ok)
  | rotate answer => exact hhost fun h hup => .rotates hup (s.rotate_spec h answer)
  | crash => exact .crashes

end State

end Artel.Workspace
