import Artel.Workspace.Steps

namespace Artel.Workspace

open Function List

def Process.genesis : Process → Option Namespace
  | .down | .opening .start | .opening (.creating _) => none
  | .opening (.recorded ns) => some ns
  | .opening (.opened doc) | .opening (.recovered doc _) | .opening (.registered doc _)
  | .opening (.upgraded doc _) => some doc.genesis
  | .up h => some h.genesis

def Process.registering : Process → Option Namespace
  | .opening (.recovered doc _) | .opening (.registered doc _) => some doc.genesis
  | _ => none

/-- No workspace is up, and the state directory says that no revoke was rotated for. -/
def State.Unused (s : State) : Prop := s.dir.mark = Seq.ZERO ∧ s.process.isUp = false

/-- Where a record has to be made, the state directory has no mark. -/
def Clean (s : State) : Event → Prop
  | .rehost => ∀ g ∈ s.dir.docId, (s.sessions g).isNone = true → s.Unused
  | .advance _ => ∀ g ∈ s.process.registering, (s.sessions g).isNone = true → s.Unused
  | _ => True

instance (s : State) : Decidable s.Unused := inferInstanceAs (Decidable (_ ∧ _))

instance (s : State) : (event : Event) → Decidable (Clean s event)
  | .rehost => inferInstanceAs (Decidable (∀ g ∈ s.dir.docId, _))
  | .advance _ => inferInstanceAs (Decidable (∀ g ∈ s.process.registering, _))
  | .leave _ | .send _ _ | .emit _ | .peerJoined _ _ | .restartDaemon | .lose _ | .start | .receive _
  | .reconnect | .giveUp | .task _ _ | .rotate _ | .crash => .isTrue trivial

/-- A log numbers its messages upwards from one, and ends at its head. -/
structure Record.Numbered (r : Record) : Prop where
  ascending : Ascending SessionMessage.seq r.log
  pos : ∀ m ∈ r.log, Seq.ZERO < m.seq
  le_head : ∀ m ∈ r.log, m.seq ≤ r.head
  surfaced : ∀ m ∈ r.log, isReserved m = false

namespace Record.Numbered

theorem new (channel : ℕ) : (Record.new channel).Numbered :=
  ⟨List.Pairwise.nil, nofun, nofun, nofun⟩

theorem send {r : Record} (h : r.Numbered) {m : SessionMessage} (hseq : r.head.next = some m.seq)
    (hm : isReserved m = false) : Record.Numbered { r with log := r.log ++ [m], head := m.seq } := by
  have hlt : ∀ x ∈ r.log, x.seq < m.seq := fun x hx =>
    (Seq.lt_next_iff _ _ _ hseq).mpr (h.le_head x hx)
  have hmem : ∀ x ∈ r.log ++ [m], x ∈ r.log ∨ x = m := by simp
  refine ⟨(Ascending.append_singleton _).mpr ⟨h.ascending, hlt⟩, fun x hx => ?_, fun x hx => ?_,
    fun x hx => ?_⟩
  · obtain hx | rfl := hmem x hx
    · exact h.pos x hx
    · exact (Seq.lt_next_iff _ _ _ hseq).mpr (Seq.zero_le _)
  · obtain hx | rfl := hmem x hx
    · exact (hlt x hx).le
    · exact le_rfl
  · obtain hx | rfl := hmem x hx
    · exact h.surfaced x hx
    · exact hm

end Record.Numbered

/-- A record that is there stays as it is, but for its channel, or is sent a message. -/
def Record.Grows (r r' : Record) : Prop :=
  r'.log = r.log ∧ r'.head = r.head ∨
    ∃ m, r.head.next = some m.seq ∧ r'.log = r.log ++ [m] ∧ r'.head = m.seq

theorem Record.Grows.refl (r : Record) : r.Grows r := .inl ⟨rfl, rfl⟩

theorem Record.Grows.head_le {r r' : Record} (h : r.Grows r') : r.head ≤ r'.head := by
  obtain ⟨-, hhead⟩ | ⟨m, hseq, -, hhead⟩ := h
  · exact hhead.ge
  · exact hhead ▸ ((Seq.lt_next_iff _ _ _ hseq).mpr le_rfl).le

theorem Record.Grows.mem {r r' : Record} (h : r.Grows r') {m : SessionMessage} (hm : m ∈ r'.log) :
    m ∈ r.log ∨ r.head < m.seq := by
  obtain ⟨hlog, -⟩ | ⟨sent, hseq, hlog, -⟩ := h
  · exact .inl (hlog ▸ hm)
  · rw [hlog] at hm
    obtain hm | rfl : m ∈ r.log ∨ m = sent := by simpa using hm
    · exact .inl hm
    · exact .inr ((Seq.lt_next_iff _ _ _ hseq).mpr le_rfl)

namespace State

variable {s : State}

theorem hostSession_sessions {g g' : Namespace} {r : Record}
    (h : (s.hostSession g).sessions g' = some r) :
    s.sessions g' = some r ∨ g' = g ∧ s.sessions g = none ∧ r = .new s.nextChannel ∧
      (s.hostSession g).trace = s.trace ++ [.created g] := by
  unfold hostSession at h ⊢
  cases hsession : s.sessions g with
  | some r₀ =>
    simp only [hsession] at h
    exact .inl h
  | none =>
    simp only [hsession, note] at h ⊢
    by_cases hg : g' = g
    · subst hg
      obtain rfl : _ = r := by simpa using h
      exact .inr ⟨rfl, trivial, rfl, trivial⟩
    · exact .inl (by simpa [update_of_ne hg] using h)

@[simp] theorem onStream_sessions (f : Namespace → ℕ → List CapEvent → List CapEvent) :
    (s.onStream f).sessions = s.sessions := by
  obtain ⟨process, heq, -⟩ := s.onStream_eq f
  rw [heq]

theorem outside_sessions (site : Site) {event : Event} (hout : event.outside = true)
    {g : Namespace} {r' : Record} (h : (step site s event).sessions g = some r') :
    (∃ r, s.sessions g = some r ∧ r.Grows r') ∨
    (event = .rehost ∧ s.dir.docId = some g ∧ s.sessions g = none ∧ r' = .new s.nextChannel ∧
      (step site s event).trace = s.trace ++ [.created g]) := by
  cases event with
  | rehost =>
    simp only [step] at h ⊢
    cases hdoc : s.dir.docId with
    | none =>
      simp only [hdoc] at h
      exact .inl ⟨r', h, .refl r'⟩
    | some genesis =>
      simp only [hdoc] at h ⊢
      obtain hr | ⟨rfl, hnone, hnew, htrace⟩ := hostSession_sessions h
      · exact .inl ⟨r', hr, .refl r'⟩
      · exact .inr ⟨trivial, rfl, hnone, hnew, htrace⟩
  | leave genesis =>
    refine .inl ⟨r', ?_, .refl r'⟩
    by_cases hg : g = genesis
    · simp [step, hg] at h
    · simpa [step, update_of_ne hg] using h
  | send genesis m =>
    simp only [step, send] at h
    split at h
    · exact .inl ⟨r', h, .refl r'⟩
    rename_i r hr
    split at h
    · rename_i hsent
      by_cases hg : g = genesis
      · subst hg
        obtain rfl : _ = r' := by simpa using h
        exact .inl ⟨r, hr, .inr ⟨m, hsent.1, rfl, rfl⟩⟩
      · exact .inl ⟨r', by simpa [update_of_ne hg] using h, .refl r'⟩
    · exact .inl ⟨r', h, .refl r'⟩
  | emit k =>
    simp only [step, emit] at h
    split at h
    · exact .inl ⟨r', h, .refl r'⟩
    · exact .inl ⟨r', by simpa [publish] using h, .refl r'⟩
  | peerJoined genesis peer =>
    simp only [step, peerJoined] at h
    split at h
    · exact .inl ⟨r', h, .refl r'⟩
    · exact .inl ⟨r', by simpa [publish] using h, .refl r'⟩
  | restartDaemon =>
    simp only [step, restartDaemon, onStream_sessions] at h
    obtain ⟨r, hr, rfl⟩ := Option.map_eq_some_iff.mp h
    exact .inl ⟨r, hr, .inl ⟨rfl, rfl⟩⟩
  | lose k => exact .inl ⟨r', by simpa [step, lose] using h, .refl r'⟩
  | reconnect =>
    refine .inl ⟨r', ?_, .refl r'⟩
    obtain heq | ⟨host, hup, heq⟩ := s.withHost_cases s.reconnect
    · simpa only [step, heq] using h
    · simp only [step, heq] at h
      unfold reconnect at h
      split at h <;> exact h
  | start | advance _ | receive _ | giveUp | task _ _ | rotate _ | crash => cases hout

theorem onStream_listener {f : Namespace → ℕ → List CapEvent → List CapEvent} {h' : Host}
    (h : (s.onStream f).process = .up h') :
    ∃ host, s.process = .up host ∧ (h'.listener = host.listener ∨
      ∃ channel events, host.listener = .streaming channel events ∧
        h'.listener = .streaming channel (f host.genesis channel events)) := by
  unfold onStream at h
  cases hprocess : s.process with
  | down => simp [hprocess] at h
  | opening phase => simp [hprocess] at h
  | up host =>
    refine ⟨host, rfl, ?_⟩
    cases hlistener : host.listener with
    | streaming channel events =>
      simp only [hprocess, hlistener, setHost, Process.up.injEq] at h
      subst h
      exact .inr ⟨channel, events, rfl, rfl⟩
    | reconnecting | stopped =>
      obtain rfl : host = h' := by simpa [hprocess, hlistener] using h
      exact .inl hlistener

/-- A listener's stream is as it was, or cut off and goes on otherwise, or new. -/
def Restreamed (s : State) (host : Host) (listener : Listener) : Prop :=
  listener = host.listener ∨
    (∃ channel events k more, host.listener = .streaming channel events ∧
      listener = .streaming channel (events.take k ++ more) ∧ .replayComplete ∉ more) ∨
    ∃ r, s.sessions host.genesis = some r ∧
      listener = .streaming r.channel (r.since host.seen ++ [.replayComplete])

theorem outside_listener (site : Site) {event : Event} (hout : event.outside = true) {h' : Host}
    (h : (step site s event).process = .up h') :
    ∃ host, s.process = .up host ∧ Restreamed s host h'.listener := by
  have hsame : s.process = .up h' → ∃ host, s.process = .up host ∧ Restreamed s host h'.listener :=
    fun hup => ⟨h', hup, .inl rfl⟩
  have hstream : ∀ {t : State} {f : Namespace → ℕ → List CapEvent → List CapEvent},
      t.process = s.process → (t.onStream f).process = .up h' →
      (∀ g channel events, ∃ k more, f g channel events = events.take k ++ more ∧
        .replayComplete ∉ more) →
      ∃ host, s.process = .up host ∧ Restreamed s host h'.listener := by
    intro t f hprocess hup hf
    obtain ⟨host, hhost, hlistener⟩ := onStream_listener hup
    refine ⟨host, hprocess ▸ hhost, hlistener.imp_right fun hstream => .inl ?_⟩
    obtain ⟨channel, events, hold, hnew⟩ := hstream
    obtain ⟨k, more, heq, hmore⟩ := hf host.genesis channel events
    exact ⟨channel, events, k, more, hold, heq ▸ hnew, hmore⟩
  have happend : ∀ (g' : Namespace) (c' : ℕ) (event : CapEvent), event ≠ .replayComplete →
      ∀ g channel (events : List CapEvent), ∃ k more,
        (if g = g' ∧ channel = c' then events ++ [event] else events) = events.take k ++ more ∧
          .replayComplete ∉ more := by
    intro g' c' event hne g channel events
    split
    · exact ⟨events.length, [event], by simp, by simpa using Ne.symm hne⟩
    · exact ⟨events.length, [], by simp, by simp⟩
  cases event with
  | rehost =>
    simp only [step] at h
    split at h
    · refine hsame ?_
      unfold hostSession at h
      split at h <;> exact h
    · exact hsame h
  | leave genesis => exact hsame h
  | send genesis m =>
    refine hsame ?_
    simp only [step, send] at h
    split at h
    · exact h
    · split at h <;> exact h
  | emit k =>
    simp only [step, emit] at h
    split at h
    · exact hsame h
    · exact hstream (t := { s with pending := s.pending.eraseIdx k }) rfl h
        (happend _ _ _ (by simp))
  | peerJoined genesis peer =>
    simp only [step, peerJoined] at h
    split at h
    · exact hsame h
    · exact hstream rfl h (happend _ _ _ (by simp))
  | restartDaemon =>
    refine hstream ?_ h fun g channel events => ⟨events.length, [.gap], by simp, by simp⟩
    rfl
  | lose k => exact hstream rfl h fun g channel events => ⟨k, [.gap], rfl, by simp⟩
  | reconnect =>
    obtain heq | ⟨host, hup, heq⟩ := s.withHost_cases s.reconnect
    · exact hsame (by simpa only [step, heq] using h)
    simp only [step, heq] at h
    unfold reconnect at h
    split at h
    · rename_i r hlistener hr
      cases h
      exact ⟨host, hup, .inr (.inr ⟨r, hr, rfl⟩)⟩
    · exact hsame h
  | start | advance _ | receive _ | giveUp | task _ _ | rotate _ | crash => cases hout

/-- A host that the daemon's events leave up is the one that was, on a record that grew. -/
theorem outside_hosting (site : Site) {event : Event} (hout : event.outside = true)
    (hclean : Clean s event) {h' : Host} {r' : Record}
    (h : (step site s event).hosting = some (h', r')) :
    ∃ host listener r, s.hosting = some (host, r) ∧ h' = { host with listener := listener } ∧
      r.Grows r' ∧ Restreamed s host listener ∧ ((step site s event).trace = s.trace ∨
        ∃ other, other ≠ host.genesis ∧ (step site s event).trace = s.trace ++ [.created other]) := by
  obtain ⟨hup', hr'⟩ := hosting_eq_some.mp h
  have hspec := s.outside_step site hout
  obtain ⟨host, listener, hup, rfl⟩ :
      ∃ host listener, s.process = .up host ∧ h' = { host with listener := listener } := by
    obtain hsame | ⟨host, listener, hup, hup''⟩ := hspec.process
    · exact ⟨h', h'.listener, hsame.symm.trans hup', rfl⟩
    · exact ⟨host, listener, hup, by simpa [hup''] using hup'.symm⟩
  have hstream : Restreamed s host listener := by
    obtain ⟨host₀, hup₀, hstream⟩ := s.outside_listener site hout hup'
    obtain rfl : host = host₀ := by simpa [hup] using hup₀
    exact hstream
  obtain ⟨r, hr, hgrows⟩ | ⟨rfl, hdoc, hnone, -⟩ := s.outside_sessions site hout hr'
  · refine ⟨host, listener, r, hosting_eq_some.mpr ⟨hup, hr⟩, rfl, hgrows, hstream, ?_⟩
    refine hspec.trace.imp_right fun ⟨other, hother, htrace⟩ => ⟨other, ?_, htrace⟩
    rintro rfl
    simp [hr] at hother
  · have hunused := (hclean _ hdoc (by simp [hnone])).2
    simp [hup, Process.isUp] at hunused

end State

/-- What the listener has yet to see of the log is on its way, or will be asked for again. -/
structure Feed (pending : List Pending) (genesis : Namespace) (seen : Seq) (r : Record)
    (channel : ℕ) (events : List CapEvent) : Prop where
  logged : ∀ m, .message m ∈ events → m ∈ r.log
  current : channel = r.channel ∨
    .gap ∈ events ∧ ∀ p ∈ pending, p.genesis = genesis → p.channel ≠ channel
  covered : ∀ m ∈ r.log, seen < m.seq →
    .message m ∈ events ∨ ⟨genesis, channel, m⟩ ∈ pending ∨ .gap ∈ events

namespace Feed

variable {pending : List Pending} {genesis : Namespace} {seen : Seq} {r : Record} {channel : ℕ}
  {events : List CapEvent}

theorem subscribed (pending : List Pending) (genesis : Namespace) (seen : Seq) (h : r.Numbered) :
    Feed pending genesis seen r r.channel (r.since seen ++ [.replayComplete]) := by
  have hmem : ∀ m, .message m ∈ r.since seen ++ [.replayComplete] ↔
      m ∈ r.log ∧ seen < m.seq ∧ isReserved m = false := by
    simp [Record.since]
  refine ⟨fun m hm => ((hmem m).mp hm).1, .inl rfl, fun m hm hseen => .inl ?_⟩
  exact (hmem m).mpr ⟨hm, hseen, h.surfaced m hm⟩

section

variable (h : Feed pending genesis seen r channel events)
include h

theorem send (m : SessionMessage) :
    Feed (pending ++ [⟨genesis, r.channel, m⟩]) genesis seen
      { r with log := r.log ++ [m], head := m.seq } channel events := by
  refine ⟨fun x hx => mem_append_left _ (h.logged x hx), ?_, fun x hx hseen => ?_⟩
  · by_cases hchannel : channel = r.channel
    · exact .inl hchannel
    · obtain hsame | ⟨hgap, hpending⟩ := h.current
      · exact absurd hsame hchannel
      · refine .inr ⟨hgap, fun p hp hgenesis => ?_⟩
        obtain hp | rfl := by simpa using hp
        · exact hpending p hp hgenesis
        · exact Ne.symm hchannel
  · obtain hx | rfl : x ∈ r.log ∨ x = m := by simpa using hx
    · exact (h.covered x hx hseen).imp_right fun hrest => hrest.imp_left (mem_append_left _)
    · obtain rfl | ⟨hgap, -⟩ := h.current
      · exact .inr (.inl (by simp))
      · exact .inr (.inr hgap)

theorem send_other {p : Pending}
    (hother : p.genesis ≠ genesis) : Feed (pending ++ [p]) genesis seen r channel events := by
  refine ⟨h.logged, ?_, fun x hx hseen => ?_⟩
  · refine h.current.imp_right fun hright => ⟨hright.1, fun q hq hgenesis => ?_⟩
    obtain hq | rfl := by simpa using hq
    · exact hright.2 q hq hgenesis
    · exact absurd hgenesis hother
  · exact (h.covered x hx hseen).imp_right fun hrest => hrest.imp_left (mem_append_left _)

theorem emit {k : ℕ} {p : Pending}
    (hp : pending[k]? = some p)
    (hlogged : p.genesis = genesis → p.channel = r.channel → p.message ∈ r.log) :
    Feed (pending.eraseIdx k) genesis seen r channel
      (if genesis = p.genesis ∧ channel = p.channel then events ++ [.message p.message]
      else events) := by
  have hmem : p ∈ pending := mem_of_getElem? hp
  have hsub : ∀ q ∈ pending.eraseIdx k, q ∈ pending := fun q => mem_of_mem_eraseIdx
  have hrest : ∀ q ∈ pending, q ∈ pending.eraseIdx k ∨ q = p := fun q hq =>
    (eq_or_mem_eraseIdx hp hq).symm
  have hcurrent : ∀ events' : List CapEvent, (.gap ∈ events → .gap ∈ events') →
      channel = r.channel ∨
        .gap ∈ events' ∧ ∀ q ∈ pending.eraseIdx k, q.genesis = genesis → q.channel ≠ channel :=
    fun events' hgap => h.current.imp_right fun hright =>
      ⟨hgap hright.1, fun q hq => hright.2 q (hsub q hq)⟩
  by_cases hmeant : genesis = p.genesis ∧ channel = p.channel
  · obtain ⟨rfl, rfl⟩ := hmeant
    rw [if_pos ⟨rfl, rfl⟩]
    refine ⟨fun m hm => ?_, hcurrent _ (mem_append_left _), fun m hm hseen => ?_⟩
    · obtain hm | rfl : .message m ∈ events ∨ m = p.message := by simpa using hm
      · exact h.logged m hm
      · obtain hsame | ⟨-, hpending⟩ := h.current
        · exact hlogged rfl hsame
        · exact absurd rfl (hpending p hmem rfl)
    · obtain hin | hin | hin := h.covered m hm hseen
      · exact .inl (mem_append_left _ hin)
      · obtain hin | heq := hrest _ hin
        · exact .inr (.inl hin)
        · have hmessage : m = p.message := congrArg Pending.message heq
          exact .inl (by simp [hmessage])
      · exact .inr (.inr (mem_append_left _ hin))
  · rw [if_neg hmeant]
    refine ⟨h.logged, hcurrent _ id, fun m hm hseen => ?_⟩
    obtain hin | hin | hin := h.covered m hm hseen
    · exact .inl hin
    · obtain hin | heq := hrest _ hin
      · exact .inr (.inl hin)
      · exact absurd ⟨congrArg Pending.genesis heq, congrArg Pending.channel heq⟩ hmeant
    · exact .inr (.inr hin)

theorem joined (peer : PeerId) :
    Feed pending genesis seen r channel (events ++ [.peerJoined peer]) := by
  refine ⟨fun m hm => h.logged m (by simpa using hm), h.current.imp_right fun hright => ?_,
    fun m hm hseen => ?_⟩
  · exact hright.imp_left (mem_append_left _)
  · exact (h.covered m hm hseen).imp (mem_append_left _)
      fun hrest => hrest.imp_right (mem_append_left _)

theorem lost (k : ℕ) :
    Feed pending genesis seen r channel (events.take k ++ [.gap]) := by
  refine ⟨fun m hm => h.logged m ?_, h.current.imp_right fun hright => ⟨by simp, hright.2⟩,
    fun m hm hseen => .inr (.inr (by simp))⟩
  exact mem_of_mem_take (by simpa using hm)

theorem restarted (fresh : ℕ) :
    Feed [] genesis seen { r with channel := fresh } channel (events ++ [.gap]) := by
  refine ⟨fun m hm => h.logged m (by simpa using hm), .inr ⟨by simp, nofun⟩,
    fun m hm hseen => .inr (.inr (by simp))⟩

end

theorem pop {event : CapEvent} (h : Feed pending genesis seen r channel (event :: events))
    (hgap : event ≠ .gap) {seen' : Seq} (hseen : seen ≤ seen')
    (hm : ∀ m, event = .message m → m.seq ≤ seen') :
    Feed pending genesis seen' r channel events := by
  have hrest : .gap ∈ event :: events → CapEvent.gap ∈ events := fun hin =>
    (mem_cons.mp hin).resolve_left (Ne.symm hgap)
  refine ⟨fun m hin => h.logged m (mem_cons_of_mem _ hin),
    h.current.imp_right fun hright => hright.imp_left hrest, fun m hin hlt => ?_⟩
  refine (h.covered m hin (hseen.trans_lt hlt)).imp (fun hin => ?_) fun hright =>
    hright.imp_right hrest
  refine (mem_cons.mp hin).resolve_left fun heq => ?_
  exact absurd hlt (not_lt.mpr (hm m heq.symm))

end Feed

/-- What the daemon keeps, and the genesis that a process goes by. -/
structure Stored (s : State) : Prop where
  records : ∀ g r, s.sessions g = some r → r.Numbered ∧ g < s.nextNamespace ∧
    r.channel < s.nextChannel
  pending : ∀ p ∈ s.pending, p.channel < s.nextChannel ∧
    ∀ r, s.sessions p.genesis = some r → p.channel = r.channel → p.message ∈ r.log
  docId : ∀ g, s.dir.docId = some g → g < s.nextNamespace
  creating : ∀ ns, s.process = .opening (.creating ns) →
    ns < s.nextNamespace ∧ s.sessions ns = none ∧ s.dir.docId ≠ some ns
  genesis : ∀ g, s.process.genesis = some g → s.dir.docId = some g

/-- What a host has seen, and what its listener is sent, is of the log. -/
def Wired (pending : List Pending) (h : Host) (r : Record) : Prop :=
  h.seen ≤ r.head ∧ ∀ channel events, h.listener = .streaming channel events →
    Feed pending h.genesis h.seen r channel events

structure Kept (s : State) : Prop extends Stored s where
  wired : ∀ h r, s.process = .up h → s.sessions h.genesis = some r → Wired s.pending h r

theorem Host.Handled.seen {site : Site} {h h' : Host} {m : SessionMessage}
    (hhandled : Host.Handled site h m h') : h'.seen = max h.seen m.seq := by
  simp only [Host.seen, hhandled.lastSeq, maxSeq, Option.getD_some]
  cases h.lastSeq with
  | none => exact (max_eq_right (Seq.zero_le _)).symm
  | some seq => rfl

namespace Stored

variable {s t : State}

section

variable (h : Stored s)
include h

theorem congr (hsessions : t.sessions = s.sessions) (hpending : t.pending = s.pending)
    (hchannel : t.nextChannel = s.nextChannel) (hnamespace : s.nextNamespace ≤ t.nextNamespace)
    (hdoc : t.dir.docId = s.dir.docId)
    (hcreating : ∀ ns, t.process = .opening (.creating ns) →
      ns < t.nextNamespace ∧ s.sessions ns = none ∧ s.dir.docId ≠ some ns)
    (hgenesis : ∀ g, t.process.genesis = some g → s.dir.docId = some g) : Stored t := by
  refine ⟨fun g r hr => ?_, fun p hp => ?_, fun g hg => ?_, fun ns hns => ?_, fun g hg => ?_⟩
  · obtain ⟨hnumbered, hlt, hch⟩ := h.records g r (hsessions ▸ hr)
    exact ⟨hnumbered, hlt.trans_le hnamespace, hchannel.symm ▸ hch⟩
  · rw [hsessions, hchannel]
    exact h.pending p (hpending ▸ hp)
  · exact (h.docId g (hdoc ▸ hg)).trans_le hnamespace
  · rw [hsessions, hdoc]
    exact hcreating ns hns
  · rw [hdoc]
    exact hgenesis g hg

theorem onStream (f : Namespace → ℕ → List CapEvent → List CapEvent) :
    Stored (s.onStream f) := by
  unfold State.onStream
  split
  · rename_i host hup
    split
    · refine h.congr rfl rfl rfl le_rfl rfl nofun fun g hg => h.genesis g ?_
      rw [hup]
      exact hg
    · exact h
    · exact h
  · exact h
  · exact h

theorem fresh : s.sessions s.nextNamespace = none := by
  cases hsession : s.sessions s.nextNamespace with
  | none => rfl
  | some r => exact absurd (h.records _ r hsession).2.1 (lt_irrefl _)

theorem send (g : Namespace) (m : SessionMessage) : Stored (s.send g m) := by
  unfold State.send
  split
  · exact h
  rename_i r hr
  split
  · rename_i hsent
    obtain ⟨hnumbered, hlt, hch⟩ := h.records g r hr
    refine ⟨fun g' r' hr' => ?_, fun p hp => ?_, h.docId, fun ns hns => ?_, h.genesis⟩
    · by_cases hg : g' = g
      · subst hg
        obtain rfl : _ = r' := by simpa using hr'
        exact ⟨hnumbered.send hsent.1 hsent.2, hlt, hch⟩
      · exact h.records g' r' (by simpa [update_of_ne hg] using hr')
    · obtain hp | rfl : p ∈ s.pending ∨ p = ⟨g, r.channel, m⟩ := by simpa using hp
      · obtain ⟨hpch, hlogged⟩ := h.pending p hp
        refine ⟨hpch, fun r' hr' hsame => ?_⟩
        by_cases hg : p.genesis = g
        · obtain rfl : _ = r' := by simpa [hg] using hr'
          exact mem_append_left _ (hlogged r (hg ▸ hr) hsame)
        · exact hlogged r' (by simpa [update_of_ne hg] using hr') hsame
      · refine ⟨hch, fun r' hr' _ => ?_⟩
        obtain rfl : _ = r' := by simpa using hr'
        simp
    · obtain ⟨hns, hnone, hdoc⟩ := h.creating ns hns
      refine ⟨hns, ?_, hdoc⟩
      have hne : ns ≠ g := by
        rintro rfl
        simp [hnone] at hr
      simpa [update_of_ne hne] using hnone
  · exact h

theorem leave (g : Namespace) :
    Stored { s with sessions := update s.sessions g none } := by
  have hold : ∀ g' r, update s.sessions g none g' = some r → s.sessions g' = some r := by
    intro g' r hr
    by_cases hg : g' = g
    · simp [hg] at hr
    · simpa [update_of_ne hg] using hr
  refine ⟨fun g' r hr => h.records g' r (hold g' r hr), fun p hp => ?_, h.docId, fun ns hns => ?_,
    h.genesis⟩
  · obtain ⟨hch, hlogged⟩ := h.pending p hp
    exact ⟨hch, fun r hr => hlogged r (hold _ r hr)⟩
  · obtain ⟨hlt, hnone, hdoc⟩ := h.creating ns hns
    refine ⟨hlt, ?_, hdoc⟩
    cases hsession : update s.sessions g none ns with
    | none => exact hsession
    | some r => exact absurd (hold ns r hsession) (by simp [hnone])

theorem restarted : Stored { s with
    sessions := fun g => (s.sessions g).map fun r : Record => { r with channel := s.nextChannel }
    pending := []
    nextChannel := s.nextChannel + 1 } := by
  refine ⟨fun g r hr => ?_, nofun, h.docId, fun ns hns => ?_, h.genesis⟩
  · obtain ⟨r₀, hr₀, rfl⟩ := Option.map_eq_some_iff.mp hr
    obtain ⟨hnumbered, hlt, -⟩ := h.records g r₀ hr₀
    exact ⟨⟨hnumbered.ascending, hnumbered.pos, hnumbered.le_head, hnumbered.surfaced⟩, hlt,
      Nat.lt_succ_self _⟩
  · obtain ⟨hlt, hnone, hdoc⟩ := h.creating ns hns
    exact ⟨hlt, by simp [hnone], hdoc⟩

theorem emitted (k : ℕ) : Stored { s with pending := s.pending.eraseIdx k } :=
  ⟨h.records, fun p hp => h.pending p (mem_of_mem_eraseIdx hp), h.docId, h.creating, h.genesis⟩

theorem hostSession {g : Namespace} (hdoc : s.dir.docId = some g) :
    Stored (s.hostSession g) := by
  unfold State.hostSession
  split
  · exact h
  refine ⟨fun g' r hr => ?_, fun p hp => ?_, h.docId, fun ns hns => ?_, h.genesis⟩
  · by_cases hg : g' = g
    · subst hg
      obtain rfl : _ = r := by simpa [State.note] using hr
      exact ⟨.new _, h.docId g' hdoc, Nat.lt_succ_self _⟩
    · have hr : s.sessions g' = some r := by simpa [State.note, update_of_ne hg] using hr
      obtain ⟨hnumbered, hlt, hch⟩ := h.records g' r hr
      exact ⟨hnumbered, hlt, hch.trans (Nat.lt_succ_self _)⟩
  · obtain ⟨hch, hlogged⟩ := h.pending p hp
    refine ⟨hch.trans (Nat.lt_succ_self _), fun r hr hsame => ?_⟩
    by_cases hg : p.genesis = g
    · obtain rfl : _ = r := by simpa [State.note, hg] using hr
      exact absurd hsame hch.ne
    · exact hlogged r (by simpa [State.note, update_of_ne hg] using hr) hsame
  · obtain ⟨hlt, hnone, hne⟩ := h.creating ns hns
    have hg : ns ≠ g := by
      rintro rfl
      exact hne hdoc
    exact ⟨hlt, by simpa [State.note, update_of_ne hg] using hnone, hne⟩

end

end Stored

namespace Kept

variable {site : Site} {s t : State}

theorem of_not_up (h : Stored t) (hup : t.process.isUp = false) : Kept t :=
  ⟨h, fun host _ hhost => absurd hhost (Process.ne_up hup host)⟩

theorem initial : Kept .initial := of_not_up ⟨nofun, nofun, nofun, nofun, nofun⟩ rfl

theorem onStream {f : Namespace → ℕ → List CapEvent → List CapEvent} (h : Stored s)
    (hwired : ∀ host r, s.process = .up host → s.sessions host.genesis = some r →
      host.seen ≤ r.head ∧ ∀ channel events, host.listener = .streaming channel events →
        Feed s.pending host.genesis host.seen r channel (f host.genesis channel events)) :
    Kept (s.onStream f) := by
  refine ⟨h.onStream f, fun host' r hup' hr => ?_⟩
  unfold State.onStream at hup' hr ⊢
  cases hprocess : s.process with
  | down => simp [hprocess] at hup'
  | opening phase => simp [hprocess] at hup'
  | up host =>
    cases hlistener : host.listener with
    | streaming channel events =>
      simp only [hprocess, hlistener, State.setHost, Process.up.injEq] at hup' hr ⊢
      subst hup'
      obtain ⟨hseen, hfeed⟩ := hwired host r hprocess hr
      refine ⟨hseen, fun channel' events' heq => ?_⟩
      cases heq
      exact hfeed channel events hlistener
    | reconnecting | stopped =>
      simp only [hprocess, hlistener, Process.up.injEq] at hup' hr ⊢
      subst hup'
      exact ⟨(hwired host r hprocess hr).1, fun channel events heq => by simp [hlistener] at heq⟩

section

variable (h : Kept s)
include h

theorem hostSession {g : Namespace} (hdoc : s.dir.docId = some g)
    (hunused : (s.sessions g).isNone = true → s.Unused) : Kept (s.hostSession g) := by
  have hstored := h.toStored.hostSession hdoc
  unfold State.hostSession at hstored ⊢
  split at hstored
  · exact h
  · rename_i hnone
    exact of_not_up hstored (hunused (by simp [hnone])).2

theorem send (g : Namespace) (m : SessionMessage) : Kept (s.send g m) := by
  refine ⟨h.toStored.send g m, fun host r hup hr => ?_⟩
  unfold State.send at hup hr ⊢
  cases hsession : s.sessions g with
  | none =>
    simp only [hsession] at hup hr ⊢
    exact h.wired host r hup hr
  | some r₀ =>
    simp only [hsession] at hup hr ⊢
    split at hup
    · rename_i hsent
      simp only [if_pos hsent] at hr ⊢
      by_cases hg : host.genesis = g
      · subst hg
        obtain rfl : _ = r := by simpa using hr
        obtain ⟨hseen, hfeed⟩ := h.wired host r₀ hup hsession
        refine ⟨hseen.trans ?_, fun channel events hlistener => ?_⟩
        · exact ((Seq.lt_next_iff _ _ _ hsent.1).mpr le_rfl).le
        · exact (hfeed channel events hlistener).send m
      · obtain ⟨hseen, hfeed⟩ :=
          h.wired host r hup (by simpa [update_of_ne hg] using hr)
        refine ⟨hseen, fun channel events hlistener => ?_⟩
        exact (hfeed channel events hlistener).send_other (Ne.symm hg)
    · rename_i hsent
      simp only [if_neg hsent] at hr ⊢
      exact h.wired host r hup hr

theorem emit (k : ℕ) : Kept (s.emit k) := by
  unfold State.emit
  split
  · exact h
  rename_i p hp
  refine onStream (h.toStored.emitted k) fun host r hup hr => ?_
  obtain ⟨hseen, hfeed⟩ := h.wired host r hup hr
  refine ⟨hseen, fun channel events hlistener => ?_⟩
  refine (hfeed channel events hlistener).emit hp fun hgenesis hsame => ?_
  exact (h.pending p (mem_of_getElem? hp)).2 r (hgenesis.symm ▸ hr) hsame

theorem peerJoined (g : Namespace) (peer : PeerId) : Kept (s.peerJoined g peer) := by
  unfold State.peerJoined
  split
  · exact h
  refine onStream h.toStored fun host r hup hr => ?_
  obtain ⟨hseen, hfeed⟩ := h.wired host r hup hr
  refine ⟨hseen, fun channel events hlistener => ?_⟩
  have hfeed := hfeed channel events hlistener
  split
  · exact hfeed.joined peer
  · exact hfeed

theorem restartDaemon : Kept s.restartDaemon := by
  unfold State.restartDaemon
  refine onStream h.toStored.restarted fun host r hup hr => ?_
  obtain ⟨r₀, hr₀, rfl⟩ := Option.map_eq_some_iff.mp hr
  obtain ⟨hseen, hfeed⟩ := h.wired host r₀ hup hr₀
  exact ⟨hseen, fun channel events hlistener => (hfeed channel events hlistener).restarted _⟩

theorem lose (k : ℕ) : Kept (s.lose k) := by
  refine onStream h.toStored fun host r hup hr => ?_
  obtain ⟨hseen, hfeed⟩ := h.wired host r hup hr
  exact ⟨hseen, fun channel events hlistener => (hfeed channel events hlistener).lost k⟩

theorem setHost {host host' : Host} (hup : s.process = .up host)
    (hgenesis : host'.genesis = host.genesis)
    (hwired : ∀ r, s.sessions host.genesis = some r → Wired s.pending host r →
      Wired s.pending host' r) : Kept (s.setHost host') := by
  refine ⟨?_, fun host₀ r hup₀ hr => ?_⟩
  · refine h.toStored.congr rfl rfl rfl le_rfl rfl nofun fun g hg => h.genesis g ?_
    rw [hup]
    exact (congrArg some hgenesis).symm.trans hg
  · cases hup₀
    have hr : s.sessions host.genesis = some r := hgenesis ▸ hr
    exact hwired r hr (h.wired host r hup hr)

theorem reconnect {host : Host} (hup : s.process = .up host) :
    Kept (s.reconnect host) := by
  unfold State.reconnect
  split
  · rename_i r₀ hlistener hr₀
    refine h.setHost hup rfl fun r hr hwired => ⟨hwired.1, fun channel events heq => ?_⟩
    obtain rfl : r₀ = r := Option.some.inj (hr₀.symm.trans hr)
    cases heq
    exact .subscribed _ _ _ (h.records _ r₀ hr).1
  · exact h

theorem outside {event : Event} (hout : event.outside = true) (hclean : Clean s event) :
    Kept (State.step site s event) := by
  cases event with
  | rehost =>
    simp only [State.step]
    split
    · rename_i g hdoc
      exact h.hostSession hdoc (hclean g hdoc)
    · exact h
  | leave g =>
    refine ⟨h.toStored.leave g, fun host r hup hr => h.wired host r hup ?_⟩
    by_cases hg : host.genesis = g
    · simp [State.step, hg] at hr
    · simpa [State.step, update_of_ne hg] using hr
  | send g m => exact h.send g m
  | emit k => exact h.emit k
  | peerJoined g peer => exact h.peerJoined g peer
  | restartDaemon => exact h.restartDaemon
  | lose k => exact h.lose k
  | reconnect =>
    obtain heq | ⟨host, hup, heq⟩ := s.withHost_cases s.reconnect
    · simpa only [State.step, heq] using h
    · simp only [State.step, heq]
      exact h.reconnect hup
  | start | advance _ | receive _ | giveUp | task _ _ | rotate _ | crash => cases hout

theorem advance {opens : Bool} (hspec : State.Advances site s opens t)
    (hclean : Clean s (.advance opens)) : Kept t := by
  -- a step that hosts the session, then goes on
  have hhosted : ∀ {doc : OpenedDoc} {phase : Opening}, s.process.genesis = some doc.genesis →
      s.process.registering = some doc.genesis →
      (Process.opening phase).genesis = some doc.genesis → (∀ ns, phase ≠ .creating ns) →
      Kept ((s.hostSession doc.genesis).setOpening phase) := by
    intro doc phase hgenesis hregistering hphase hcreating
    have hdoc := h.genesis _ hgenesis
    have hkept := h.hostSession hdoc (hclean _ hregistering)
    have hdoc' : (s.hostSession doc.genesis).dir.docId = some doc.genesis := by
      rw [(s.outside_hostSession doc.genesis).dir]
      exact hdoc
    refine of_not_up (hkept.toStored.congr rfl rfl rfl le_rfl rfl (fun ns hns => ?_)
      fun g hg => ?_) rfl
    · cases hns
      exact absurd rfl (hcreating ns)
    · rw [hdoc']
      exact hphase.symm.trans hg
  have hgoes : ∀ {phase : Opening}, (Process.opening phase).genesis = s.process.genesis →
      (∀ ns, phase ≠ .creating ns) → Kept (s.setOpening phase) := by
    intro phase hsame hcreating
    refine of_not_up (h.toStored.congr rfl rfl rfl le_rfl rfl (fun ns hns => ?_)
      fun g hg => h.genesis g (hsame ▸ hg)) rfl
    cases hns
    exact absurd rfl (hcreating ns)
  cases hspec with
  | stays => exact h
  | creates _ _ =>
    refine of_not_up (h.toStored.congr rfl rfl rfl (Nat.le_succ _) rfl (fun ns hns => ?_) nofun) rfl
    cases hns
    exact ⟨Nat.lt_succ_self _, h.fresh, fun hdoc => absurd (h.docId _ hdoc) (lt_irrefl _)⟩
  | reopens _ hdoc =>
    refine of_not_up (h.toStored.congr rfl rfl rfl le_rfl rfl nofun fun g hg => ?_) rfl
    cases hg
    exact hdoc
  | records hprocess =>
    obtain ⟨hlt, -, -⟩ := h.creating _ hprocess
    refine of_not_up ⟨h.records, h.pending, fun g hg => ?_, nofun, fun g hg => hg⟩ rfl
    cases hg
    exact hlt
  | clears hprocess | resets hprocess =>
    refine of_not_up (h.toStored.congr rfl rfl rfl le_rfl rfl nofun fun g hg => h.genesis g ?_) rfl
    rw [hprocess]
    exact hg
  | recovers hprocess =>
    refine hgoes ?_ nofun
    rw [hprocess]
    rfl
  | registers hprocess | upgrades hprocess =>
    refine hhosted ?_ ?_ rfl nofun
    · rw [hprocess]
      rfl
    · rw [hprocess]
      rfl
  | fails =>
    exact of_not_up (h.toStored.congr rfl rfl rfl le_rfl rfl nofun nofun) rfl
  | @subscribes doc mark r hprocess hr =>
    rw [State.bringUp_eq hr]
    refine ⟨h.toStored.congr rfl rfl rfl le_rfl rfl nofun fun g hg => h.genesis g ?_,
      fun host r' hup hr' => ?_⟩
    · rw [hprocess]
      exact hg
    · cases hup
      obtain rfl : r = r' := Option.some.inj (hr.symm.trans hr')
      refine ⟨Seq.zero_le _, fun channel events heq => ?_⟩
      cases heq
      exact .subscribed _ _ _ (h.records _ r hr).1

theorem receive {host : Host} (hup : s.process = .up host) {cleaned : Bool}
    (hspec : State.Receives site s host cleaned t) : Kept t := by
  cases hspec with
  | stays => exact h
  | @handles channel m rest host' hlistener hhandled =>
    have hseen : host'.seen = max host.seen m.seq := hhandled.seen
    have hkept : Kept (s.setHost host') := by
      refine h.setHost hup hhandled.keeps.genesis fun r hr ⟨hle, hfeed⟩ => ?_
      have hfeed := hfeed channel _ hlistener
      have hm : m ∈ r.log := hfeed.logged m mem_cons_self
      refine ⟨hseen ▸ max_le hle ((h.records _ r hr).1.le_head m hm), fun channel' events heq => ?_⟩
      rw [hhandled.keeps.listener] at heq
      cases heq
      rw [hseen, hhandled.keeps.genesis]
      refine hfeed.pop nofun (le_max_left _ _) fun x hx => ?_
      cases hx
      exact le_max_right _ _
    exact ⟨hkept.toStored.congr rfl rfl rfl le_rfl rfl nofun hkept.genesis, hkept.wired⟩
  | completes hlistener | joins hlistener =>
    refine h.setHost hup rfl fun r hr ⟨hle, hfeed⟩ => ⟨hle, fun channel' events heq => ?_⟩
    cases heq
    exact (hfeed _ _ hlistener).pop nofun le_rfl nofun
  | gaps hlistener => exact h.setHost hup rfl fun r hr ⟨hle, hfeed⟩ => ⟨hle, nofun⟩

theorem within {host host' : Host} (hup : s.process = .up host)
    (hwithin : State.Within s t host host') : Kept t := by
  refine ⟨h.toStored.congr hwithin.sessions hwithin.pending hwithin.nextChannel
    hwithin.nextNamespace hwithin.docId (fun ns hns => ?_) fun g hg => h.genesis g ?_,
    fun host₀ r hup₀ hr => ?_⟩
  · simp [hwithin.process] at hns
  · rw [hup]
    rw [hwithin.process] at hg
    exact (congrArg some hwithin.genesis).symm.trans hg
  · obtain rfl : host' = host₀ := by simpa [hwithin.process] using hup₀
    rw [hwithin.sessions, hwithin.genesis] at hr
    have hwired := h.wired host r hup hr
    unfold Wired
    rw [hwithin.seen, hwithin.listener, hwithin.genesis, hwithin.pending]
    exact hwired

theorem step {event : Event} (hclean : Clean s event) :
    Kept (State.step site s event) := by
  have hspec := s.step_spec site event
  generalize ht : State.step site s event = t at hspec
  cases hspec with
  | idles => exact h
  | outside hout => exact h.outside hout hclean
  | starts | crashes => exact of_not_up (h.toStored.congr rfl rfl rfl le_rfl rfl nofun nofun) rfl
  | advances hspec => exact h.advance hspec hclean
  | receives hup hspec => exact h.receive hup hspec
  | stops hup => exact h.setHost hup rfl fun r hr ⟨hle, _⟩ => ⟨hle, nofun⟩
  | runs hup hran => exact h.within hup (State.within_ran hran)
  | rotates hup hspec =>
    obtain ⟨host', hwithin⟩ := hspec.within hup
    exact h.within hup hwithin

end

end Kept

end Artel.Workspace
