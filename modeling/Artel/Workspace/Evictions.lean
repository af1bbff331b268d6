import Artel.Workspace.Steps

namespace Artel.Workspace

/-- The listener applied a `Revoke` by the host that the signal is for. -/
def Backed (host : PeerId) (trace : List Mark) (signal : RotationSignal) : Prop :=
  ∃ genesis m, .applied genesis m ∈ trace ∧ m.peer.id = host ∧
    CapabilityAction.decode m.payload = some (.revoke signal.revokedPeer) ∧ m.seq = signal.revokeSeq

/-- The mark is the host's `Revoke` that the signal is for. -/
def Mark.backs (host : PeerId) (signal : RotationSignal) : Mark → Bool
  | .applied _ m => m.peer.id = host ∧
      CapabilityAction.decode m.payload = some (.revoke signal.revokedPeer) ∧
      m.seq = signal.revokeSeq
  | _ => false

instance (host : PeerId) (trace : List Mark) (signal : RotationSignal) :
    Decidable (Backed host trace signal) :=
  decidable_of_iff (∃ mark ∈ trace, mark.backs host signal = true) (by
    constructor
    · rintro ⟨mark, hmark, hbacks⟩
      cases mark with
      | applied genesis m => exact ⟨genesis, m, hmark, by simpa [Mark.backs] using hbacks⟩
      | _ => simp [Mark.backs] at hbacks
    · rintro ⟨genesis, m, hmark, hrest⟩
      exact ⟨_, hmark, by simpa [Mark.backs] using hrest⟩)

theorem Backed.append {host : PeerId} {trace : List Mark} {signal : RotationSignal}
    (h : Backed host trace signal) (marks : List Mark) : Backed host (trace ++ marks) signal := by
  obtain ⟨genesis, m, hm, hrest⟩ := h
  exact ⟨genesis, m, List.mem_append_left marks hm, hrest⟩

/-- A message handed to the listener that decodes to a `Revoke` was authored by the host. -/
def HostRevokes (site : Site) (s : State) : Event → Prop
  | .receive _ => ∀ m ∈ s.incoming, Host.evictions m ≠ [] → m.peer.id = site.host
  | _ => True

instance (site : Site) (s : State) (event : Event) : Decidable (HostRevokes site s event) := by
  cases event <;> simp only [HostRevokes] <;> infer_instance

structure HostOnly (site : Site) (s : State) : Prop where
  marks : ∀ signal, .enqueued signal ∈ s.trace ∨ .began signal ∈ s.trace →
    Backed site.host s.trace signal
  signals : ∀ h, s.process = .up h → ∀ signal, signal ∈ h.signals ∨ h.rotation.signal = some signal →
    Backed site.host s.trace signal

namespace HostOnly

variable {site : Site} {s : State}

theorem initial : HostOnly site .initial :=
  ⟨fun _ h => h.elim nofun nofun, fun host hup => absurd hup (Process.ne_up rfl host)⟩

section

variable (h : HostOnly site s)
include h

theorem note {t : State} (marks : List Mark)
    (htrace : t.trace = s.trace ++ marks)
    (hmarks : ∀ signal, .enqueued signal ∈ marks ∨ .began signal ∈ marks →
      Backed site.host t.trace signal)
    (hsignals : ∀ h', t.process = .up h' → ∀ signal,
      signal ∈ h'.signals ∨ h'.rotation.signal = some signal → Backed site.host t.trace signal) :
    HostOnly site t := by
  refine ⟨fun signal hsignal => ?_, hsignals⟩
  rw [htrace, List.mem_append, List.mem_append] at hsignal
  have hold : .enqueued signal ∈ s.trace ∨ .began signal ∈ s.trace →
      Backed site.host t.trace signal := fun hsignal => by
    rw [htrace]
    exact (h.marks signal hsignal).append marks
  rcases hsignal with (hs | hs) | hs | hs
  · exact hold (.inl hs)
  · exact hmarks signal (.inl hs)
  · exact hold (.inr hs)
  · exact hmarks signal (.inr hs)

theorem outside {t : State} (ht : State.Outside s t) : HostOnly site t := by
  have htrace : ∃ marks, t.trace = s.trace ++ marks ∧
      ∀ signal, ¬(.enqueued signal ∈ marks ∨ .began signal ∈ marks) := by
    obtain hsame | ⟨genesis, -, hcreated⟩ := ht.trace
    · exact ⟨[], by simp [hsame], by simp⟩
    · exact ⟨[.created genesis], hcreated, by simp⟩
  obtain ⟨marks, htrace, hmarks⟩ := htrace
  refine h.note marks htrace (fun signal hsignal => absurd hsignal (hmarks signal))
    fun h' hup signal hsignal => ?_
  rw [htrace]
  refine Backed.append ?_ marks
  obtain hsame | ⟨h₀, listener, hup₀, hup'⟩ := ht.process
  · exact h.signals h' (hsame.symm.trans hup) signal hsignal
  · rw [hup'] at hup
    cases hup
    exact h.signals h₀ hup₀ signal hsignal

theorem of_not_up {t : State} (htrace : t.trace = s.trace)
    (hup : t.process.isUp = false) : HostOnly site t :=
  h.note [] (by simp [htrace]) (by simp) fun host hhost => absurd hhost (Process.ne_up hup host)

theorem advance {opens : Bool} {t : State}
    (hspec : State.Advances site s opens t) : HostOnly site t := by
  have hhosted : ∀ genesis phase, HostOnly site ((s.hostSession genesis).setOpening phase) :=
    fun genesis phase => (h.outside (s.outside_hostSession genesis)).of_not_up rfl rfl
  cases hspec with
  | stays => exact h
  | registers => exact hhosted _ _
  | upgrades => exact hhosted _ _
  | subscribes _ hsession =>
    rw [State.bringUp_eq hsession]
    refine h.note [] (by simp [State.setHost]) (by simp) fun host hup signal hsignal => ?_
    cases hup
    simp [Rotation.signal] at hsignal
  | _ => exact h.of_not_up rfl rfl

theorem host {host host' : Host} (hup : s.process = .up host)
    {t : State} (hup' : t.process = .up host') (marks : List Mark)
    (htrace : t.trace = s.trace ++ marks)
    (hmarks : ∀ signal, .enqueued signal ∈ marks ∨ .began signal ∈ marks →
      Backed site.host t.trace signal)
    (hsignals : ∀ signal ∈ host'.signals, signal ∈ host.signals ∨ Backed site.host t.trace signal)
    (hrotation : ∀ signal, host'.rotation.signal = some signal →
      signal ∈ host.signals ∨ host.rotation.signal = some signal) : HostOnly site t := by
  have hold : ∀ signal, signal ∈ host.signals ∨ host.rotation.signal = some signal →
      Backed site.host t.trace signal := fun signal hsignal => by
    rw [htrace]
    exact (h.signals host hup signal hsignal).append marks
  refine h.note marks htrace hmarks fun h' hup'' signal hsignal => ?_
  obtain rfl : host' = h' := by simpa [hup'] using hup''
  rcases hsignal with hin | hin
  · exact (hsignals signal hin).elim (fun hin => hold signal (.inl hin)) id
  · exact hold signal (hrotation signal hin)

end

theorem signal_messageMarks {host : Host} {m : SessionMessage} {signal : RotationSignal}
    (h : .enqueued signal ∈ host.messageMarks m ∨ .began signal ∈ host.messageMarks m) :
    signal ∈ Host.evictions m := by
  obtain hin | hin := h
  · obtain heq | ⟨peer, heq⟩ | ⟨other, hother, heq⟩ := Host.mem_messageMarks hin
    · cases heq
    · cases heq
    · cases heq
      exact hother
  · obtain heq | ⟨peer, heq⟩ | ⟨other, -, heq⟩ := Host.mem_messageMarks hin <;> cases heq

section

variable (h : HostOnly site s)
include h

theorem receive {host : Host} (hup : s.process = .up host) {cleaned : Bool}
    {t : State} (hspec : State.Receives site s host cleaned t)
    (hrevokes : HostRevokes site s (.receive cleaned)) : HostOnly site t := by
  -- the events that bring no message send no signal
  have hquiet : ∀ {host' : Host}, host'.signals = host.signals → host'.rotation = host.rotation →
      HostOnly site (s.setHost host') := fun hsignals hrotation =>
    h.host hup rfl [] (by simp [State.setHost]) (by simp) (fun _ hin => .inl (hsignals ▸ hin))
      fun _ hin => .inr (hrotation ▸ hin)
  cases hspec with
  | stays => exact h
  | completes => exact hquiet rfl rfl
  | joins => exact hquiet rfl rfl
  | gaps => exact hquiet rfl rfl
  | @handles channel m rest host' hlistener hhandled =>
    have hincoming : s.incoming = some m := by simp [State.incoming, hup, hlistener]
    -- the mark that the message leaves backs its signal
    have hbacked : ∀ signal ∈ Host.evictions m,
        Backed site.host (s.trace ++ host.messageMarks m) signal := by
      intro signal hsignal
      obtain ⟨hkind, hdecode, hseq⟩ := Host.mem_evictions.mp hsignal
      refine ⟨host.genesis, m, ?_, hrevokes m hincoming (List.ne_nil_of_mem hsignal), hdecode, hseq⟩
      simp [Host.messageMarks, hkind]
    refine h.host hup rfl (host.messageMarks m) rfl
      (fun signal hsignal => hbacked signal (signal_messageMarks hsignal)) (fun signal hsignal => ?_)
      fun signal hsignal => .inr ?_
    · rw [hhandled.signals, List.mem_append] at hsignal
      exact hsignal.imp id (hbacked signal)
    · rwa [hhandled.keeps.rotation] at hsignal

theorem task {host host' : Host} (hup : s.process = .up host) {k : ℕ}
    {marks : List Mark} (hran : Host.Ran host k host' marks) :
    HostOnly site ((s.setHost host').note marks) := by
  have hmarks : ∀ signal, ¬(.enqueued signal ∈ marks ∨ .began signal ∈ marks) := by
    intro signal hsignal
    obtain ⟨-, hnil⟩ | ⟨task, -, -, ⟨-, hnil⟩ | ⟨-, hdeliveries⟩⟩ := hran.tasks
    · simp [hnil] at hsignal
    · simp [hnil] at hsignal
    · rw [hdeliveries] at hsignal
      cases task <;> simp only [Host.deliveries] at hsignal <;> split at hsignal <;> simp at hsignal
  refine h.host hup rfl marks rfl
    (fun signal hsignal => absurd hsignal (hmarks signal)) (fun signal hsignal => .inl ?_)
    fun signal hsignal => .inr ?_
  · exact hran.signals ▸ hsignal
  · exact hran.keeps.rotation ▸ hsignal

theorem rotate {host : Host} (hup : s.process = .up host)
    {answer : RotateAnswer} {t : State} (hspec : State.Rotates s host answer t) :
    HostOnly site t := by
  -- but for the taking and the beginning, a step goes on with the rotation's signal or drops it
  have hkeeps : ∀ {t : State} {host' : Host} (marks : List Mark), t.process = .up host' →
      t.trace = s.trace ++ marks → (∀ signal, .enqueued signal ∉ marks ∧ .began signal ∉ marks) →
      host'.signals = host.signals →
      (∀ signal, host'.rotation.signal = some signal → host.rotation.signal = some signal) →
      HostOnly site t := fun marks hup' htrace hmarks hsignals hrotation =>
    h.host hup hup' marks htrace (fun signal hin => absurd hin (not_or.mpr (hmarks signal)))
      (fun signal hin => .inl (hsignals ▸ hin)) fun signal hin => .inr (hrotation signal hin)
  cases hspec with
  | stays => exact h
  | skips _ hsignals =>
    refine h.host hup rfl [] (by simp [State.setHost]) (by simp) (fun signal hin => .inl ?_)
      fun signal hin => .inr hin
    rw [hsignals]
    exact List.mem_cons_of_mem _ hin
  | takes _ hsignals =>
    refine h.host hup rfl [] (by simp [State.setHost]) (by simp) (fun signal hin => .inl ?_)
      fun signal hin => .inl ?_
    · rw [hsignals]
      exact List.mem_cons_of_mem _ hin
    · cases hin
      simp [hsignals]
  | @begins signal hrotation =>
    refine h.host hup rfl [.began signal] rfl (fun began hin => ?_) (fun _ => .inl)
      fun signal' hin => .inr (by rw [hrotation]; exact hin)
    obtain rfl : began = signal := by simpa using hin
    refine (h.signals host hup began (.inr ?_)).append _
    rw [hrotation]
    rfl
  | mints hrotation | names hrotation =>
    exact hkeeps [] rfl (by simp [State.setHost]) (by simp) rfl fun _ hin => hrotation ▸ hin
  | completes hrotation => exact hkeeps _ rfl rfl (by simp) rfl fun _ hin => hrotation ▸ hin
  | hands =>
    refine hkeeps _ rfl rfl (fun signal => ?_) rfl nofun
    split <;> simp
  | _ => exact hkeeps [] rfl (by simp [State.setHost]) (by simp) rfl nofun

theorem step (event : Event) (hrevokes : HostRevokes site s event) :
    HostOnly site (State.step site s event) := by
  have hspec := s.step_spec site event
  generalize State.step site s event = t at hspec
  cases hspec with
  | idles => exact h
  | outside hout => exact h.outside (s.outside_step site hout)
  | starts => exact h.of_not_up rfl rfl
  | advances hspec => exact h.advance hspec
  | receives hup hspec => exact h.receive hup hspec hrevokes
  | @stops host hup =>
    exact h.host (t := s.giveUp host) hup rfl [] (by simp [State.giveUp, State.setHost]) (by simp)
      (fun _ => .inl) fun _ => .inr
  | runs hup hran => exact h.task hup hran
  | rotates hup hspec => exact h.rotate hup hspec
  | crashes => exact h.of_not_up rfl rfl

end

end HostOnly

/-- If only the host revokes, every signal and rotation is for its `Revoke`. -/
theorem rotations_follow_host_revokes (site : Site) (events : List Event)
    (hrevokes : Along (State.step site) (HostRevokes site) .initial events) (signal : RotationSignal)
    (hsignal : .enqueued signal ∈ (State.after site events).trace ∨
      .began signal ∈ (State.after site events).trace) :
    Backed site.host (State.after site events).trace signal := by
  have hinv : HostOnly site (State.after site events) :=
    hrevokes.invariant (fun _ _ h => h.step _) .initial
  exact hinv.marks signal hsignal

namespace Sample

open Artel.Sample

/-- Peer 1 is granted `ReadWrite`; a peer revokes peer 2; the task has two turns. -/
def evicted (author : UInt8) : List Event :=
  hosted ++ [.receive true] ++ delivered (capability 0 1 (.grant (peer 1) .readWrite)) ++
    delivered (capability author 2 (.revoke (peer 2))) ++ [.rotate {}, .rotate {}]

/-- The host's own revoke rotates. -/
theorem rotations_follow_host_revokes_live :
    Along (State.step site) (HostRevokes site) .initial (evicted 0) ∧
      .began ⟨peer 2, ⟨2⟩⟩ ∈ (State.after site (evicted 0)).trace ∧
      Backed site.host (State.after site (evicted 0)).trace ⟨peer 2, ⟨2⟩⟩ := by
  have hrun : Along (State.step site) (HostRevokes site) .initial (evicted 0) := by decide +kernel
  have hbegan : .began ⟨peer 2, ⟨2⟩⟩ ∈ (State.after site (evicted 0)).trace := by decide +kernel
  exact ⟨hrun, hbegan, rotations_follow_host_revokes site (evicted 0) hrun _ (.inr hbegan)⟩

/-- A member's revoke leaves the map alone, and rotates all the same. -/
theorem member_revoke_rotates :
    .enqueued ⟨peer 2, ⟨2⟩⟩ ∈ (State.after site (evicted 1)).trace ∧
      .began ⟨peer 2, ⟨2⟩⟩ ∈ (State.after site (evicted 1)).trace ∧
      ¬Backed site.host (State.after site (evicted 1)).trace ⟨peer 2, ⟨2⟩⟩ := by
  decide +kernel

end Sample

end Artel.Workspace
