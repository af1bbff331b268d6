import Artel.Workspace.Handing
import Artel.Workspace.Settling

namespace Artel.Workspace

open List

def Host.target (h : Host) : Namespace :=
  match h.rotation with
  | .marked outcome => outcome.newNamespace
  | _ => h.doc

/-- `rotate_namespace` and `reimport_namespace` do not fail. -/
def Event.rotates : Event → Bool
  | .rotate answer => !answer.fault && answer.swapped
  | _ => true

/-- Whoever was handed the namespace and revoked since was revoked above the mark. -/
def Withheld (host : PeerId) (r : Record) (trace : List Mark) (ns : Namespace) (mark : Seq) : Prop :=
  ∀ peer, .handed peer ns ∈ trace → lastAction host peer r.log = some (.revoke peer) →
    ∃ m ∈ r.log, actionOn host peer m = some (.revoke peer) ∧ mark < m.seq

def Process.doc : Process → Option OpenedDoc
  | .opening (.opened doc) | .opening (.recovered doc _) | .opening (.registered doc _)
  | .opening (.upgraded doc _) => some doc
  | _ => none

theorem lastAction_singleton (host peer : PeerId) (m : SessionMessage) :
    lastAction host peer [m] = actionOn host peer m := by
  cases hact : actionOn host peer m <;> simp [lastAction, hact]

theorem lastAction_mem {host peer : PeerId} {log : List SessionMessage} {a : CapabilityAction}
    (h : lastAction host peer log = some a) : ∃ m ∈ log, actionOn host peer m = some a :=
  mem_filterMap.mp (mem_of_getLast? h)

theorem lastAction_filter {host peer : PeerId} {log : List SessionMessage} {a : CapabilityAction}
    (h : lastAction host peer log = some a) (seen : Seq) :
    lastAction host peer (log.filter (·.seq ≤ seen)) = some a ∨
      ∃ m ∈ log, actionOn host peer m = some a ∧ seen < m.seq := by
  induction log using List.reverseRecOn with
  | nil => exact .inl h
  | append_singleton log m ih =>
    rw [lastAction_append, lastAction_singleton] at h
    by_cases hle : m.seq ≤ seen
    · rw [filter_append, filter_cons_of_pos (by simpa using hle), filter_nil,
        lastAction_append, lastAction_singleton]
      cases hact : actionOn host peer m with
      | some b =>
        rw [hact, Option.some_or] at h
        exact .inl (by rw [Option.some_or, h])
      | none =>
        rw [hact, Option.none_or] at h
        exact (ih h).imp_right fun ⟨x, hx, hrest⟩ => ⟨x, mem_append_left _ hx, hrest⟩
    · rw [filter_append, filter_cons_of_neg (by simpa using hle), filter_nil,
        append_nil]
      cases hact : actionOn host peer m with
      | some b =>
        rw [hact, Option.some_or] at h
        exact .inr ⟨m, by simp, hact.trans h, not_le.mp hle⟩
      | none =>
        rw [hact, Option.none_or] at h
        exact (ih h).imp_right fun ⟨x, hx, hrest⟩ => ⟨x, mem_append_left _ hx, hrest⟩

theorem mem_evictions_of_actionOn {host peer : PeerId} {m : SessionMessage}
    (h : actionOn host peer m = some (.revoke peer)) :
    (⟨peer, m.seq⟩ : RotationSignal) ∈ Host.evictions m := by
  unfold actionOn at h
  split at h
  · rename_i hcap
    exact Host.mem_evictions.mpr ⟨hcap.1, (Option.filter_eq_some_iff.mp h).1, rfl⟩
  · cases h

namespace Withheld

variable {host : PeerId} {r r' : Record} {trace : List Mark} {ns : Namespace} {mark : Seq}

theorem unhanded (h : ∀ peer, .handed peer ns ∉ trace) : Withheld host r trace ns mark :=
  fun peer hin => absurd hin (h peer)

theorem zero (h : r.Numbered) : Withheld host r trace ns Seq.ZERO := by
  intro peer _ hlast
  obtain ⟨m, hm, hact⟩ := lastAction_mem hlast
  exact ⟨m, hm, hact, h.pos m hm⟩

section

variable (h : Withheld host r trace ns mark)
include h

theorem grows (hgrows : r.Grows r') (hmark : mark ≤ r.head) :
    Withheld host r' trace ns mark := by
  intro peer hin hlast
  obtain ⟨hlog, -⟩ | ⟨m, hseq, hlog, -⟩ := hgrows
  · rw [hlog] at hlast ⊢
    exact h peer hin hlast
  rw [hlog] at hlast ⊢
  rw [lastAction_append, lastAction_singleton] at hlast
  cases hact : actionOn host peer m with
  | some a =>
    rw [hact, Option.some_or] at hlast
    exact ⟨m, by simp, hact.trans hlast, (Seq.lt_next_iff _ _ _ hseq).mpr hmark⟩
  | none =>
    rw [hact, Option.none_or] at hlast
    obtain ⟨x, hx, hrest⟩ := h peer hin hlast
    exact ⟨x, mem_append_left _ hx, hrest⟩

theorem append {marks : List Mark}
    (hmarks : ∀ peer, .handed peer ns ∈ marks → lastAction host peer r.log = some (.revoke peer) →
      ∃ m ∈ r.log, actionOn host peer m = some (.revoke peer) ∧ mark < m.seq) :
    Withheld host r (trace ++ marks) ns mark :=
  fun peer hin => (mem_append.mp hin).elim (h peer) (hmarks peer)

theorem quiet {trace' : List Mark}
    (htrace : ∀ peer, .handed peer ns ∈ trace' → .handed peer ns ∈ trace) :
    Withheld host r trace' ns mark :=
  fun peer hin => h peer (htrace peer hin)

end

end Withheld

/-- A host counts as ready once it has seen all that its mark is about. -/
structure Replayed (h : Host) (r : Record) : Prop where
  above : h.peerMap.readiness = .ready ∨ h.peerMap.readiness = .replaying →
    ∀ m ∈ r.log, h.seen < m.seq → h.rotatedRevokeSeq < m.seq
  early : h.peerMap.readiness = .initializing →
    h.rotation = .idle ∨ ∃ signal, h.rotation = .waiting signal
  before : h.peerMap.readiness = .initializing → ∀ channel events,
    h.listener = .streaming channel events → ∀ pre post, events = pre ++ .replayComplete :: post →
      ∀ m ∈ r.log, m.seq ≤ h.rotatedRevokeSeq →
        m.seq ≤ h.seen ∨ .message m ∈ pre ∨ .gap ∈ pre

namespace Replayed

variable {h h' : Host} {r r' : Record}

theorem cleared {site : Site} (hreplayed : Replayed h r) (hproj : Projected site h r)
    (hready : h.peerMap.readiness = .ready) {peer : PeerId} (hrw : h.peerMap.hasRw peer = true)
    (hlast : lastAction site.host peer r.log = some (.revoke peer)) :
    ∃ m ∈ r.log, actionOn site.host peer m = some (.revoke peer) ∧ h.rotatedRevokeSeq < m.seq := by
  obtain hseen | ⟨m, hm, hact, hlt⟩ := lastAction_filter hlast h.seen
  · have hlookup : h.peerMap.caps.lookup peer = some .readWrite := by
      simpa [PeerMap.hasRw] using hrw
    rw [hproj.caps, PeerMap.lookup_foldl] at hlookup
    have hhost : (PeerMap.replaying site.host).host = site.host := rfl
    rw [hhost, Record.upTo, hseen] at hlookup
    simp [CapabilityAction.leaves] at hlookup
  · exact ⟨m, hm, hact, hreplayed.above (.inl hready) m hm hlt⟩

theorem grows (hreplayed : Replayed h r) (hgrows : r.Grows r') (hmark : h.rotatedRevokeSeq ≤ r.head) :
    Replayed h r' := by
  refine ⟨fun hready m hm hlt => ?_, hreplayed.early,
    fun hinit channel events hlistener pre post hsplit m hm hle => ?_⟩
  · obtain hm | hnew := hgrows.mem hm
    · exact hreplayed.above hready m hm hlt
    · exact hmark.trans_lt hnew
  · obtain hm | hnew := hgrows.mem hm
    · exact hreplayed.before hinit channel events hlistener pre post hsplit m hm hle
    · exact absurd (hle.trans hmark) (not_le.mpr hnew)

theorem split_take {events more pre post : List CapEvent} {k : ℕ} (hmore : .replayComplete ∉ more)
    (hsplit : events.take k ++ more = pre ++ .replayComplete :: post) :
    ∃ post', events = pre ++ .replayComplete :: post' := by
  obtain ⟨mid, hpre, hmid⟩ | ⟨mid, htake, hmid⟩ := append_eq_append_iff.mp hsplit
  · exact absurd (hmid ▸ by simp) hmore
  cases mid with
  | nil =>
    have hin : .replayComplete ∈ more := by
      have heq : CapEvent.replayComplete :: post = more := by simpa using hmid
      rw [← heq]
      exact mem_cons_self
    exact absurd hin hmore
  | cons event mid =>
    obtain ⟨rfl, -⟩ : .replayComplete = event ∧ post = mid ++ more := by simpa using hmid
    refine ⟨mid ++ events.drop k, ?_⟩
    calc events = events.take k ++ events.drop k := (take_append_drop k events).symm
      _ = pre ++ .replayComplete :: (mid ++ events.drop k) := by rw [htake]; simp

theorem split_since {seen : Seq} {pre post : List CapEvent}
    (hsplit : r.since seen ++ [.replayComplete] = pre ++ .replayComplete :: post) :
    ∀ m, .message m ∈ r.since seen → .message m ∈ pre := by
  intro m hm
  have hnot : .replayComplete ∉ r.since seen := by simp [Record.since]
  obtain ⟨mid, rfl, -⟩ | ⟨mid, hsince, hmid⟩ := append_eq_append_iff.mp hsplit
  · exact mem_append_left _ hm
  cases mid with
  | nil =>
    rw [append_nil] at hsince
    exact hsince ▸ hm
  | cons event mid =>
    obtain ⟨rfl, -⟩ : .replayComplete = event ∧ post = mid ++ [.replayComplete] := by
      simpa using hmid
    exact absurd (hsince ▸ by simp) hnot

theorem subscribed (hnumbered : r.Numbered) {seen : Seq} {pre post : List CapEvent}
    (hsplit : r.since seen ++ [.replayComplete] = pre ++ .replayComplete :: post) :
    ∀ m ∈ r.log, m.seq ≤ seen ∨ .message m ∈ pre ∨ .gap ∈ pre := by
  intro m hm
  by_cases hle : m.seq ≤ seen
  · exact .inl hle
  · refine .inr (.inl (split_since hsplit m ?_))
    simpa [Record.since] using ⟨hm, not_le.mp hle, hnumbered.surfaced m hm⟩

theorem restreamed {s : State} (hreplayed : Replayed h r) (hnumbered : r.Numbered)
    (hr : s.sessions h.genesis = some r) {listener : Listener}
    (hstream : State.Restreamed s h listener) : Replayed { h with listener := listener } r := by
  refine ⟨hreplayed.above, hreplayed.early,
    fun hinit channel events hlistener pre post hsplit m hm hle => ?_⟩
  obtain hsame | ⟨channel₀, events₀, k, more, hold, hnew, hmore⟩ | ⟨r₀, hr₀, hnew⟩ := hstream
  · exact hreplayed.before hinit channel events (hsame ▸ hlistener) pre post hsplit m hm hle
  · have hevents : events₀.take k ++ more = events := by
      have heq := hnew.symm.trans hlistener
      simpa using (Listener.streaming.inj heq).2
    obtain ⟨post', hsplit'⟩ := split_take hmore (hevents.trans hsplit)
    exact hreplayed.before hinit channel₀ events₀ hold pre post' hsplit' m hm hle
  · obtain rfl : r₀ = r := Option.some.inj (hr₀.symm.trans hr)
    have hevents : r₀.since h.seen ++ [.replayComplete] = events := by
      have heq := hnew.symm.trans hlistener
      simpa using (Listener.streaming.inj heq).2
    exact subscribed hnumbered (hevents.trans hsplit) m hm

theorem pops (hreplayed : Replayed h r) {channel : ℕ} {event : CapEvent} {rest : List CapEvent}
    (hlistener : h.listener = .streaming channel (event :: rest)) (hgap : event ≠ .gap)
    (hlistener' : h'.listener = .streaming channel rest)
    (hready : h'.peerMap.readiness = h.peerMap.readiness)
    (hmark : h'.rotatedRevokeSeq = h.rotatedRevokeSeq) (hrotation : h'.rotation = h.rotation)
    (hseen : h.seen ≤ h'.seen) (hm : ∀ m, event = .message m → m.seq ≤ h'.seen) :
    Replayed h' r := by
  constructor
  · rw [hready, hmark]
    exact fun hin m hmem hlt => hreplayed.above hin m hmem (hseen.trans_lt hlt)
  · rw [hready, hrotation]
    exact hreplayed.early
  · rw [hready, hmark]
    intro hinit channel' events heq pre post hsplit m hmem hle
    obtain rfl : rest = events := (Listener.streaming.inj (hlistener'.symm.trans heq)).2
    obtain hold | hold | hold := hreplayed.before hinit channel _ hlistener (event :: pre) post
      (by rw [hsplit, cons_append]) m hmem hle
    · exact .inl (hold.trans hseen)
    · obtain heq | hin := mem_cons.mp hold
      · exact .inl (hm m heq.symm)
      · exact .inr (.inl hin)
    · exact .inr (.inr ((mem_cons.mp hold).resolve_left (Ne.symm hgap)))

theorem completes (hreplayed : Replayed h r) {channel : ℕ} {rest : List CapEvent}
    (hlistener : h.listener = .streaming channel (.replayComplete :: rest)) :
    Replayed { h with listener := .streaming channel rest, peerMap := h.peerMap.finishReplay } r := by
  have habove : h.peerMap.readiness ≠ .closed →
      ∀ m ∈ r.log, h.seen < m.seq → h.rotatedRevokeSeq < m.seq := by
    intro hopen m hm hlt
    cases hstate : h.peerMap.readiness with
    | ready => exact hreplayed.above (.inl hstate) m hm hlt
    | replaying => exact hreplayed.above (.inr hstate) m hm hlt
    | closed => exact absurd hstate hopen
    | initializing =>
      by_contra hle
      obtain hin | hin | hin :=
        hreplayed.before hstate channel _ hlistener [] rest rfl m hm (not_lt.mp hle)
      · exact absurd hlt (not_lt.mpr hin)
      · cases hin
      · cases hin
  have hdone : h.peerMap.finishReplay.readiness = .ready ∨
      h.peerMap.readiness = .closed ∧ h.peerMap.finishReplay.readiness = .closed := by
    unfold PeerMap.finishReplay
    cases hstate : h.peerMap.readiness <;> simp [hstate]
  obtain hready | ⟨hclosed, hclosed'⟩ := hdone
  · refine ⟨fun _ => habove fun hclosed => ?_, fun hinit => ?_, fun hinit => ?_⟩
    · simp [PeerMap.finishReplay, hclosed] at hready
    · exact absurd (hready.symm.trans hinit) (by decide)
    · exact absurd (hready.symm.trans hinit) (by decide)
  · refine ⟨fun hin => ?_, fun hinit => ?_, fun hinit => ?_⟩
    · exact absurd hin (by simp [hclosed'])
    · exact absurd (hclosed'.symm.trans hinit) (by decide)
    · exact absurd (hclosed'.symm.trans hinit) (by decide)

theorem closed (hclosed : h.peerMap.readiness = .closed) (r : Record) : Replayed h r := by
  refine ⟨fun hin => ?_, fun hinit => ?_, fun hinit => ?_⟩
  · simp [hclosed] at hin
  · simp [hclosed] at hinit
  · simp [hclosed] at hinit

theorem gaps (hreplayed : Replayed h r) :
    Replayed { h with listener := .reconnecting, peerMap := h.peerMap.beginReplay } r := by
  have hsame : h.peerMap.beginReplay.readiness = h.peerMap.readiness ∨
      h.peerMap.readiness = .ready ∧ h.peerMap.beginReplay.readiness = .replaying := by
    unfold PeerMap.beginReplay
    cases hstate : h.peerMap.readiness <;> simp [hstate]
  obtain hsame | ⟨hready, hreplaying⟩ := hsame
  · refine ⟨fun hin => hreplayed.above (hsame ▸ hin), fun hinit => hreplayed.early (hsame ▸ hinit),
      fun _ => nofun⟩
  · refine ⟨fun _ => hreplayed.above (.inl hready), fun hinit => ?_, fun _ => nofun⟩
    exact absurd (hreplaying.symm.trans hinit) nofun

theorem congr (hreplayed : Replayed h r) {h' : Host} (hmap : h'.peerMap = h.peerMap)
    (hlistener : h'.listener = h.listener) (hseen : h'.seen = h.seen)
    (hmark : h'.rotatedRevokeSeq = h.rotatedRevokeSeq)
    (hearly : h.peerMap.readiness = .initializing →
      h'.rotation = .idle ∨ ∃ signal, h'.rotation = .waiting signal) : Replayed h' r := by
  constructor
  · rw [hmap, hseen, hmark]
    exact hreplayed.above
  · rw [hmap]
    exact hearly
  · rw [hmap, hlistener, hseen, hmark]
    exact hreplayed.before

theorem rotates {s t : State} {answer : RotateAnswer} (hspec : State.Rotates s h answer t)
    (hreplayed : Replayed h r) (hup : s.process = .up h) (hup' : t.process = .up h')
    (hsignals : ∀ signal, h.rotation.signal = some signal → signal.revokeSeq ≤ h.seen) :
    Replayed h' r := by
  -- past its waiting, a rotation is one of a host that was ready once
  have hlate : h.rotation ≠ .idle → (∀ signal, h.rotation ≠ .waiting signal) →
      h.peerMap.readiness ≠ .initializing := by
    rintro hidle hwaiting hinit
    obtain heq | ⟨signal, heq⟩ := hreplayed.early hinit
    · exact hidle heq
    · exact hwaiting signal heq
  cases hspec with
  | stays =>
    obtain rfl : h = h' := by simpa [hup] using hup'
    exact hreplayed
  | skips hrotation =>
    cases hup'
    exact hreplayed.congr rfl rfl rfl rfl fun _ => .inl hrotation
  | takes =>
    cases hup'
    exact hreplayed.congr rfl rfl rfl rfl fun _ => .inr ⟨_, rfl⟩
  | abandons | faults | ends =>
    cases hup'
    exact hreplayed.congr rfl rfl rfl rfl fun _ => .inl rfl
  | begins _ hready =>
    cases hup'
    exact hreplayed.congr rfl rfl rfl rfl fun hinit => absurd (hready.symm.trans hinit) nofun
  | marks hrotation =>
    cases hup'
    have hle := hsignals _ (by rw [hrotation]; rfl)
    have hnot := hlate (by simp [hrotation]) (by simp [hrotation])
    exact ⟨fun _ m _ hlt => hle.trans_lt hlt, fun hinit => absurd hinit hnot,
      fun hinit => absurd hinit hnot⟩
  | _ =>
    cases hup'
    exact hreplayed.congr rfl rfl rfl rfl fun hinit =>
      absurd hinit (hlate (by simp [*]) (by simp [*]))

end Replayed

/-- The namespace that is recorded and that the mark does not reckon with. -/
def Rotation.recorded : Rotation → Option Namespace
  | .named _ ns => some ns
  | .rotated _ outcome => some outcome.newNamespace
  | _ => none

/-- Neither the named nor the current namespace was handed to a revoked peer. -/
structure Secret (site : Site) (s : State) : Prop where
  disk : ∀ g r, s.dir.docId = some g → s.sessions g = some r →
    Withheld site.host r s.trace (s.dir.currentNamespace.getD g) s.dir.mark
  opening : ∀ doc, s.process.doc = some doc →
    doc.doc = s.dir.currentNamespace.getD doc.genesis ∨ doc.returning = false
  unmarked : ∀ doc mark, s.process.doc = some doc → s.process.mark = some mark →
    doc.returning = false → mark = Seq.ZERO
  recorded : ∀ h, s.process = .up h → ∀ ns, h.rotation.recorded = some ns →
    s.dir.currentNamespace = some ns
  host : ∀ h r, s.hosting = some (h, r) →
    Withheld site.host r s.trace h.target h.rotatedRevokeSeq ∧ Replayed h r ∧
      s.dir.mark ≤ h.rotatedRevokeSeq

/-- All that is known of a run that hands on the log in its order. -/
structure Guarded (site : Site) (s : State) : Prop extends Ordered site s where
  settling : Settling s
  handing : Handing s
  secret : Secret site s

namespace Secret

variable {site : Site} {s t : State}

theorem initial : Secret site .initial :=
  ⟨nofun, nofun, nofun, fun host hup => absurd hup (Process.ne_up rfl host),
    fun host r hhosting => absurd hhosting (State.hosting_ne rfl host r)⟩

theorem of_not_up (h : Secret site s) (hsessions : t.sessions = s.sessions)
    (htrace : t.trace = s.trace) (hdoc : t.dir.docId = s.dir.docId)
    (hcurrent : t.dir.currentNamespace = s.dir.currentNamespace) (hmark : t.dir.mark = s.dir.mark)
    (hup : t.process.isUp = false)
    (hopening : ∀ doc, t.process.doc = some doc →
      doc.doc = s.dir.currentNamespace.getD doc.genesis ∨ doc.returning = false)
    (hunmarked : ∀ doc mark, t.process.doc = some doc → t.process.mark = some mark →
      doc.returning = false → mark = Seq.ZERO) : Secret site t := by
  refine ⟨?_, ?_, hunmarked, fun host hhost => absurd hhost (Process.ne_up hup host),
    fun host r hhosting => absurd hhosting (State.hosting_ne hup host r)⟩
  · rw [hsessions, htrace, hdoc, hcurrent, hmark]
    exact h.disk
  · rw [hcurrent]
    exact hopening

theorem of_host {host' : Host} (hup : t.process = .up host')
    (hdisk : ∀ g r, t.dir.docId = some g → t.sessions g = some r →
      Withheld site.host r t.trace (t.dir.currentNamespace.getD g) t.dir.mark)
    (hrecorded : ∀ ns, host'.rotation.recorded = some ns → t.dir.currentNamespace = some ns)
    (hhost : ∀ r, t.sessions host'.genesis = some r →
      Withheld site.host r t.trace host'.target host'.rotatedRevokeSeq ∧ Replayed host' r ∧
        t.dir.mark ≤ host'.rotatedRevokeSeq) : Secret site t := by
  refine ⟨hdisk, ?_, ?_, fun host hhost' => ?_, fun host r hhosting => ?_⟩
  · rw [hup]
    exact nofun
  · rw [hup]
    exact nofun
  · obtain rfl : host' = host := by simpa [hup] using hhost'
    exact hrecorded
  · obtain ⟨hup', hr⟩ := State.hosting_eq_some.mp hhosting
    obtain rfl : host' = host := by simpa [hup] using hup'
    exact hhost r hr

section

variable (hg : Guarded site s)
include hg

theorem outside {event : Event} (hout : event.outside = true)
    (hclean : Clean s event) : Secret site (State.step site s event) := by
  have h := hg.secret
  have hspec := s.outside_step site hout
  have htrace : ∀ {peer : PeerId} {ns : Namespace},
      .handed peer ns ∈ (State.step site s event).trace → .handed peer ns ∈ s.trace := by
    intro peer ns hin
    obtain heq | ⟨genesis, -, heq⟩ := hspec.trace
    · exact heq ▸ hin
    · rw [heq] at hin
      simpa using hin
  refine ⟨fun g r' hdoc hr' => ?_, fun doc hdoc => ?_, fun doc mark hdoc hmark => ?_,
    fun host' hup' ns hns => ?_, fun h' r' hhosting => ?_⟩
  · rw [hspec.dir] at hdoc ⊢
    obtain ⟨r, hr, hgrows⟩ | ⟨rfl, -, hnone, rfl, -⟩ := s.outside_sessions site hout hr'
    · exact ((h.disk g r hdoc hr).grows hgrows (hg.settling.disk g r hdoc hr).1).quiet
        fun peer => htrace
    · rw [(hclean g hdoc (by simp [hnone])).1]
      exact .zero (.new _)
  · rw [hspec.dir]
    refine h.opening doc ?_
    obtain hsame | ⟨host, listener, -, hup'⟩ := hspec.process
    · exact hsame ▸ hdoc
    · rw [hup'] at hdoc
      cases hdoc
  · obtain hsame | ⟨host, listener, -, hup'⟩ := hspec.process
    · exact h.unmarked doc mark (hsame ▸ hdoc) (hsame ▸ hmark)
    · rw [hup'] at hdoc
      cases hdoc
  · rw [hspec.dir]
    obtain hsame | ⟨host, listener, hup, hup''⟩ := hspec.process
    · exact h.recorded host' (hsame ▸ hup') ns hns
    · rw [hup''] at hup'
      cases hup'
      exact h.recorded host hup ns hns
  · obtain ⟨host, listener, r, hhost, rfl, hgrows, hstream, -⟩ :=
      s.outside_hosting site hout hclean hhosting
    obtain ⟨hwithheld, hreplayed, hmark⟩ := h.host host r hhost
    obtain ⟨hup, hr⟩ := State.hosting_eq_some.mp hhost
    have hle := (hg.settling.host host r hhost).mark_le
    rw [hspec.dir]
    refine ⟨(hwithheld.grows hgrows hle).quiet fun peer => htrace, ?_, hmark⟩
    exact (hreplayed.restreamed (hg.kept.records _ r hr).1 hr hstream).grows hgrows hle

theorem advance {opens : Bool} (hspec : State.Advances site s opens t)
    (hclean : Clean s (.advance opens)) : Secret site t := by
  have h := hg.secret
  have hhosted : ∀ {doc : OpenedDoc} {phase : Opening}, s.process.registering = some doc.genesis →
      (∀ doc, (Process.opening phase).doc = some doc → s.process.doc = some doc) →
      (∀ mark, (Process.opening phase).mark = some mark → s.process.mark = some mark) →
      Secret site ((s.hostSession doc.genesis).setOpening phase) := by
    intro doc phase hregistering hdoc hmark
    have hout := s.outside_hostSession doc.genesis
    have hdir : ((s.hostSession doc.genesis).setOpening phase).dir = s.dir := hout.dir
    refine ⟨fun g r hg' hr => ?_, fun doc' hdoc' => ?_, fun doc' mark hdoc' hmark' => ?_,
      fun host hup => absurd hup (Process.ne_up rfl host),
      fun host r hhosting => absurd hhosting (State.hosting_ne rfl host r)⟩
    · rw [hdir] at hg' ⊢
      obtain hr₀ | ⟨rfl, hnone, rfl, -⟩ := State.hostSession_sessions hr
      · refine (h.disk g r hg' hr₀).quiet fun peer hin => ?_
        obtain heq | ⟨other, -, heq⟩ := hout.trace
        · exact heq ▸ hin
        · have hin : .handed peer _ ∈ s.trace ++ [Mark.created other] := heq ▸ hin
          simpa using hin
      · rw [(hclean _ hregistering (by simp [hnone])).1]
        exact .zero (.new _)
    · rw [hdir]
      exact h.opening doc' (hdoc doc' hdoc')
    · exact h.unmarked doc' mark (hdoc doc' hdoc') (hmark mark hmark')
  cases hspec with
  | stays => exact h
  | creates | fails => exact h.of_not_up rfl rfl rfl rfl rfl rfl nofun nofun
  | @reopens genesis _ hdoc =>
    refine h.of_not_up rfl rfl rfl rfl rfl rfl (fun doc heq => ?_) nofun
    cases heq
    exact .inl rfl
  | @records ns hprocess =>
    refine ⟨fun g r hdoc hr => ?_, nofun, nofun,
      fun host hup => absurd hup (Process.ne_up rfl host),
      fun host r hhosting => absurd hhosting (State.hosting_ne rfl host r)⟩
    obtain rfl : ns = g := Option.some.inj hdoc
    have hnone := (hg.kept.creating ns hprocess).2.1
    exact absurd (hnone.symm.trans hr) nofun
  | clears =>
    refine h.of_not_up rfl rfl rfl rfl rfl rfl (fun doc heq => ?_) nofun
    cases heq
    exact .inr rfl
  | @recovers doc hprocess hreturning =>
    refine h.of_not_up rfl rfl rfl rfl rfl rfl (fun doc' heq => h.opening doc' ?_)
      fun doc' mark heq _ hfresh => ?_
    · rw [hprocess]
      exact heq
    · cases heq
      simp [hreturning] at hfresh
  | @resets doc hprocess =>
    refine ⟨fun g r hdoc hr => .zero (hg.kept.records g r hr).1, fun doc' heq => h.opening doc' ?_,
      fun doc' mark _ hmark _ => ?_, fun host hup => absurd hup (Process.ne_up rfl host),
      fun host r hhosting => absurd hhosting (State.hosting_ne rfl host r)⟩
    · rw [hprocess]
      exact heq
    · cases hmark
      rfl
  | registers hprocess | upgrades hprocess =>
    refine hhosted ?_ ?_ ?_
    · rw [hprocess]
      rfl
    · rw [hprocess]
      exact fun _ => id
    · rw [hprocess]
      exact fun _ => id
  | @subscribes doc mark r hprocess hr =>
    have hdoc : s.dir.docId = some doc.genesis := hg.kept.genesis _ (by rw [hprocess]; rfl)
    have hmark : mark = s.dir.mark := hg.settling.opening mark (by rw [hprocess]; rfl)
    have hnumbered := (hg.kept.records _ r hr).1
    have hwithheld : Withheld site.host r s.trace doc.doc mark := by
      obtain hcurrent | hfresh := h.opening doc (by rw [hprocess]; rfl)
      · rw [hcurrent, hmark]
        exact h.disk doc.genesis r hdoc hr
      · obtain rfl := h.unmarked doc mark (by rw [hprocess]; rfl) (by rw [hprocess]; rfl) hfresh
        exact .zero hnumbered
    rw [State.bringUp_eq hr]
    refine of_host rfl h.disk nofun fun r' hr' => ?_
    obtain rfl : r = r' := Option.some.inj (hr.symm.trans hr')
    refine ⟨hwithheld, ⟨fun hin => ?_, fun _ => .inl rfl, fun _ channel events heq => ?_⟩, hmark.ge⟩
    · exact absurd hin (by simp [PeerMap.replaying, PeerMap.withState])
    · cases heq
      exact fun pre post hsplit m hm _ => Replayed.subscribed hnumbered hsplit m hm

theorem receive {host : Host} (hup : s.process = .up host) {cleaned : Bool}
    (hspec : State.Receives site s host cleaned t) : Secret site t := by
  have h := hg.secret
  have hold : ∀ {r : Record}, s.sessions host.genesis = some r →
      Withheld site.host r s.trace host.target host.rotatedRevokeSeq ∧ Replayed host r ∧
        s.dir.mark ≤ host.rotatedRevokeSeq :=
    fun hr => h.host host _ (State.hosting_eq_some.mpr ⟨hup, hr⟩)
  have hquiet : ∀ {host' : Host}, host'.genesis = host.genesis → host'.target = host.target →
      host'.rotatedRevokeSeq = host.rotatedRevokeSeq → host'.rotation = host.rotation →
      (∀ r, Replayed host r → Replayed host' r) → Secret site (s.setHost host') := by
    intro host' hgenesis htarget hmark hrotation hreplays
    refine of_host rfl h.disk (fun ns hns => h.recorded host hup ns (hrotation ▸ hns))
      fun r hr => ?_
    obtain ⟨hwithheld, hreplayed, hle⟩ := hold (hgenesis ▸ hr)
    rw [htarget, hmark]
    exact ⟨hwithheld, hreplays r hreplayed, hle⟩
  cases hspec with
  | stays => exact h
  | @handles channel m rest host' hlistener hhandled =>
    have hkeeps := hhandled.keeps
    have htrace : ∀ {peer : PeerId} {ns : Namespace},
        .handed peer ns ∈ s.trace ++ host.messageMarks m → .handed peer ns ∈ s.trace := by
      intro peer ns hin
      exact (mem_append.mp hin).resolve_right (Host.handed_messageMarks host m peer ns)
    have htarget : host'.target = host.target := by
      simp only [Host.target, hkeeps.rotation, hkeeps.doc]
    refine of_host rfl (fun g r hdoc hr => (h.disk g r hdoc hr).quiet fun peer => htrace)
      (fun ns hns => h.recorded host hup ns ?_) fun r hr => ?_
    · rw [hkeeps.rotation] at hns
      exact hns
    · obtain ⟨hwithheld, hreplayed, hle⟩ := hold (r := r) (by
        have hgenesis : host'.genesis = host.genesis := hkeeps.genesis
        rw [hgenesis] at hr
        exact hr)
      have hmark : host'.rotatedRevokeSeq = host.rotatedRevokeSeq := hkeeps.rotatedRevokeSeq
      have hseen : host'.seen = max host.seen m.seq := hhandled.seen
      rw [htarget, hmark]
      refine ⟨hwithheld.quiet fun peer => htrace, ?_, hle⟩
      refine hreplayed.pops hlistener nofun hkeeps.listener ?_ hmark hkeeps.rotation
        (hseen ▸ le_max_left _ _) fun x hx => ?_
      · rw [hhandled.peerMap, PeerMap.observe_readiness]
      · cases hx
        exact hseen ▸ le_max_right _ _
  | completes hlistener hmap =>
    refine hquiet rfl rfl rfl rfl fun r hreplayed => ?_
    obtain rfl | ⟨rfl, -⟩ := hmap
    · exact hreplayed.completes hlistener
    · exact .closed rfl r
  | joins hlistener =>
    exact hquiet rfl rfl rfl rfl fun r hreplayed =>
      hreplayed.pops hlistener nofun rfl rfl rfl rfl le_rfl nofun
  | gaps => exact hquiet rfl rfl rfl rfl fun r hreplayed => hreplayed.gaps

theorem delivers {host host' : Host} (hup : s.process = .up host)
    {marks : List Mark} (hgenesis : host'.genesis = host.genesis) (htarget : host'.target = host.target)
    (hmark : host'.rotatedRevokeSeq = host.rotatedRevokeSeq)
    (hrecorded : ∀ ns, host'.rotation.recorded = some ns → host.rotation.recorded = some ns)
    (hhanded : ∀ peer ns, .handed peer ns ∈ marks →
      host.peerMap.readiness = .ready ∧ host.peerMap.hasRw peer = true)
    (hreplays : ∀ r, Replayed host r → Replayed host' r) :
    Secret site ((s.setHost host').note marks) := by
  have h := hg.secret
  have hcleared : ∀ {r : Record}, s.sessions host.genesis = some r →
      ∀ {ns : Namespace} (peer : PeerId), .handed peer ns ∈ marks →
        lastAction site.host peer r.log = some (.revoke peer) →
        ∃ m ∈ r.log, actionOn site.host peer m = some (.revoke peer) ∧
          host.rotatedRevokeSeq < m.seq := by
    intro r hr ns peer hin hlast
    have hhosting := State.hosting_eq_some.mpr ⟨hup, hr⟩
    obtain ⟨hready, hrw⟩ := hhanded peer ns hin
    exact (h.host host r hhosting).2.1.cleared (hg.projected host r hhosting) hready hrw hlast
  refine of_host rfl (fun g r hdoc hr => (h.disk g r hdoc hr).append fun peer hin hlast => ?_)
    (fun ns hns => h.recorded host hup ns (hrecorded ns hns)) fun r hr => ?_
  · have hgen := hg.kept.genesis host.genesis (by rw [hup]; rfl)
    obtain rfl : g = host.genesis := Option.some.inj (hdoc.symm.trans hgen)
    obtain ⟨m, hm, hact, hlt⟩ := hcleared hr peer hin hlast
    have hle := (h.host host r (State.hosting_eq_some.mpr ⟨hup, hr⟩)).2.2
    exact ⟨m, hm, hact, hle.trans_lt hlt⟩
  · have hr : s.sessions host.genesis = some r := hgenesis ▸ hr
    obtain ⟨hwithheld, hreplayed, hle⟩ := h.host host r (State.hosting_eq_some.mpr ⟨hup, hr⟩)
    rw [htarget, hmark]
    exact ⟨hwithheld.append fun peer hin hlast => hcleared hr peer hin hlast, hreplays r hreplayed,
      hle⟩

theorem task {host host' : Host} (hup : s.process = .up host) {k : ℕ}
    {marks : List Mark} (hran : Host.Ran host k host' marks) :
    Secret site ((s.setHost host').note marks) := by
  have hwithin := State.within_ran (s := s) hran
  refine delivers hg hup hran.keeps.genesis ?_ hran.keeps.rotatedRevokeSeq
    (fun ns hns => hran.keeps.rotation ▸ hns) (fun peer ns hin => (hran.handed hin).2)
    fun r hreplayed => ?_
  · simp only [Host.target, hran.keeps.rotation, hran.keeps.doc]
  · refine hreplayed.congr hran.peerMap hran.keeps.listener hwithin.seen hran.keeps.rotatedRevokeSeq
      fun hinit => ?_
    rw [hran.keeps.rotation]
    exact hreplayed.early hinit

theorem rotate {host : Host} (hup : s.process = .up host)
    {answer : RotateAnswer} (hspec : State.Rotates s host answer t) (hok : answer.fault = false)
    (hswapped : answer.swapped = true) : Secret site t := by
  have h := hg.secret
  have hhosting : ∀ {r : Record}, s.sessions host.genesis = some r → s.hosting = some (host, r) :=
    fun hr => State.hosting_eq_some.mpr ⟨hup, hr⟩
  obtain ⟨host', hwithin⟩ := hspec.within hup
  have hup' := hwithin.process
  have hreplayed : ∀ {r : Record}, s.sessions host.genesis = some r → Replayed host' r := fun hr =>
    (h.host host _ (hhosting hr)).2.1.rotates hspec hup hup' fun signal hsignal =>
      (hg.settling.host host _ (hhosting hr)).signals signal (.inr hsignal)
  -- no one was handed the namespace that a rotation has just made
  have hsealed : ∀ {ns : Namespace} {r : Record} {mark : Seq}, host.rotation.sealed = some ns →
      Withheld site.host r s.trace ns mark := fun hns =>
    .unhanded (hg.handing.unoffered host hup _ hns).2
  -- but for the files, a step that goes on with the namespace it goes on with
  have hgoes : ∀ {h' : Host}, host' = h' → t = s.setHost h' → h'.genesis = host.genesis →
      h'.target = host.target → h'.rotatedRevokeSeq = host.rotatedRevokeSeq →
      (∀ ns, h'.rotation.recorded = some ns → host.rotation.recorded = some ns) →
      Secret site t := by
    rintro h' rfl rfl hgenesis htarget hmark hrecorded
    refine of_host rfl h.disk (fun ns hns => h.recorded host hup ns (hrecorded ns hns)) fun r hr => ?_
    have hr : s.sessions host.genesis = some r := hgenesis ▸ hr
    obtain ⟨hwithheld, -, hle⟩ := h.host host r (hhosting hr)
    rw [htarget, hmark]
    exact ⟨hwithheld, hreplayed hr, hle⟩
  have htarget : ∀ {rotation : Rotation}, host.rotation = rotation →
      (∀ outcome, rotation ≠ .marked outcome) → host.target = host.doc := by
    intro rotation hrotation hnot
    unfold Host.target
    split
    · exact absurd (hrotation.symm.trans ‹_›) (hnot _)
    · rfl
  cases hspec with
  | stays => exact h
  | faults hfault => simp [hok] at hfault
  | skips hrotation =>
    cases hup'
    exact hgoes rfl rfl rfl rfl rfl fun ns => id
  | abandons _ hwaits =>
    cases hup'
    exact hgoes rfl rfl rfl (htarget rfl (Rotation.ne_marked_of_waits hwaits)).symm rfl nofun
  | @begins signal hrotation =>
    cases hup'
    have htrace : ∀ {peer : PeerId} {ns : Namespace},
        .handed peer ns ∈ s.trace ++ [Mark.began signal] → .handed peer ns ∈ s.trace := by
      intro peer ns hin
      simpa using hin
    refine of_host rfl (fun g r hdoc hr => (h.disk g r hdoc hr).quiet fun peer => htrace) nofun
      fun r hr => ?_
    obtain ⟨hwithheld, -, hle⟩ := h.host host r (hhosting hr)
    rw [htarget hrotation nofun] at hwithheld
    exact ⟨hwithheld.quiet fun peer => htrace, hreplayed hr, hle⟩
  | mints hrotation =>
    cases hup'
    refine of_host rfl h.disk nofun fun r hr => ?_
    obtain ⟨hwithheld, -, hle⟩ := h.host host r (hhosting hr)
    rw [htarget hrotation nofun] at hwithheld
    exact ⟨hwithheld, hreplayed hr, hle⟩
  | @names signal ns hrotation =>
    cases hup'
    refine of_host rfl (fun g r _ _ => hsealed (by rw [hrotation]; rfl)) (fun ns' hns => hns)
      fun r hr => ?_
    obtain ⟨hwithheld, -, hle⟩ := h.host host r (hhosting hr)
    rw [htarget hrotation nofun] at hwithheld
    exact ⟨hwithheld, hreplayed hr, hle⟩
  | @completes signal ns hrotation =>
    cases hup'
    have htrace : ∀ {peer : PeerId} {ns' : Namespace},
        .handed peer ns' ∈ s.trace ++ [Mark.completed ns] → .handed peer ns' ∈ s.trace := by
      intro peer ns' hin
      simpa using hin
    refine of_host rfl (fun g r hdoc hr => (h.disk g r hdoc hr).quiet fun peer => htrace)
      (fun ns' hns => h.recorded host hup ns' (by rw [hrotation]; exact hns)) fun r hr => ?_
    obtain ⟨hwithheld, -, hle⟩ := h.host host r (hhosting hr)
    rw [htarget hrotation nofun] at hwithheld
    exact ⟨hwithheld.quiet fun peer => htrace, hreplayed hr, hle⟩
  | @marks signal outcome dir hrotation hdir =>
    cases hup'
    have hcurrent : s.dir.currentNamespace = some outcome.newNamespace :=
      h.recorded host hup _ (by rw [hrotation]; rfl)
    have hns : host.rotation.sealed = some outcome.newNamespace := by rw [hrotation]; rfl
    refine of_host rfl (fun g r hdoc hr => ?_) nofun fun r hr => ?_
    · obtain rfl | ⟨rfl, -⟩ := hdir
      · have hgetD : s.dir.currentNamespace.getD g = outcome.newNamespace := by rw [hcurrent]; rfl
        exact hgetD.symm ▸ hsealed hns
      · exact h.disk g r hdoc hr
    · refine ⟨hsealed hns, hreplayed hr, ?_⟩
      obtain rfl | ⟨rfl, -⟩ := hdir
      · exact le_rfl
      · have hle := (h.host host r (hhosting hr)).2.2
        have hrising := (hg.settling.host host r (hhosting hr)).rising signal (by rw [hrotation]; rfl)
        exact hle.trans hrising.le
  | @reimports outcome doc hrotation hdoc =>
    cases hup'
    obtain rfl | ⟨-, hnot⟩ := hdoc
    · refine hgoes rfl rfl rfl ?_ rfl nofun
      simp [Host.target, hrotation]
    · simp [hswapped] at hnot
  | @hands outcome left peer hrotation hready =>
    refine delivers hg hup rfl (htarget hrotation nofun).symm rfl nofun (fun other ns hin => ?_)
      fun r hreplayed => hreplayed.congr rfl rfl rfl rfl fun hinit =>
        absurd (hready.symm.trans hinit) nofun
    split at hin
    · rename_i hrw
      obtain ⟨rfl, -⟩ : other = peer ∧ ns = outcome.newNamespace := by simpa using hin
      exact ⟨hready, hrw⟩
    · cases hin
  | _ =>
    cases hup'
    exact hgoes rfl rfl rfl (htarget rfl (by simp [*])).symm rfl nofun

theorem step {event : Event} (hclean : Clean s event)
    (hok : event.rotates = true) : Secret site (State.step site s event) := by
  have h := hg.secret
  by_cases hout : event.outside = true
  · exact outside hg hout hclean
  have hspec := s.step_spec site event
  generalize State.step site s event = t at hspec
  cases hspec with
  | idles => exact h
  | outside hin => exact absurd hin hout
  | starts | crashes => exact h.of_not_up rfl rfl rfl rfl rfl rfl nofun nofun
  | advances hspec => exact advance hg hspec hclean
  | receives hup hspec => exact receive hg hup hspec
  | @stops host hup =>
    refine of_host rfl h.disk (h.recorded host hup) fun r hr => ?_
    obtain ⟨hwithheld, -, hle⟩ := h.host host r (State.hosting_eq_some.mpr ⟨hup, hr⟩)
    exact ⟨hwithheld, .closed rfl r, hle⟩
  | runs hup hran => exact task hg hup hran
  | rotates hup hspec =>
    obtain ⟨hfault, hswapped⟩ := Bool.and_eq_true_iff.mp hok
    exact rotate hg hup hspec (by simpa using hfault) hswapped

end

end Secret

theorem Event.succeeds_of_rotates {event : Event} (h : event.rotates = true) :
    event.succeeds = true := by
  cases event with
  | rotate answer => exact (Bool.and_eq_true_iff.mp h).1
  | _ => rfl

theorem guarded_run (site : Site) (events : List Event)
    (hrun : Along (State.step site) (fun s event => Clean s event ∧ InOrder s event) .initial events)
    (hok : ∀ event ∈ events, event.rotates = true) : Guarded site (State.after site events) := by
  refine (hrun.and_of_mem hok).invariant (fun s event hg hcond => ?_)
    ⟨⟨.initial, fun h r hhosting => absurd hhosting (State.hosting_ne rfl h r)⟩,
      .initial, .initial, .initial⟩
  obtain ⟨⟨hclean, horder⟩, hok⟩ := hcond
  exact ⟨⟨hg.kept.step hclean, projected_step hg.kept hg.projected hclean horder⟩,
    Settling.step hg.kept hg.settling hclean horder.1 (Event.succeeds_of_rotates hok),
    hg.handing.step event, Secret.step hg hclean hok⟩

/-- In order, the namespace of a settled host was handed to no revoked peer. -/
theorem current_namespace_withheld (site : Site) (events : List Event)
    (hrun : Along (State.step site) (fun s event => Clean s event ∧ InOrder s event) .initial events)
    (hok : ∀ event ∈ events, event.rotates = true) (h : Host) (r : Record)
    (hhosting : (State.after site events).hosting = some (h, r))
    (hpending : (State.after site events).pending = []) (hhandled : h.handled = true)
    (peer : PeerId) (hlast : lastAction site.host peer r.log = some (.revoke peer)) :
    .handed peer h.doc ∉ (State.after site events).trace := by
  intro hin
  have hg := guarded_run site events hrun hok
  obtain ⟨hup, hr⟩ := State.hosting_eq_some.mp hhosting
  simp only [Host.handled, Bool.and_eq_true, List.isEmpty_iff, decide_eq_true_eq,
    PeerMap.isReady] at hhandled
  obtain ⟨⟨⟨hcaught, hready⟩, hsignals⟩, hidle⟩ := hhandled
  have htarget : h.target = h.doc := by simp [Host.target, hidle]
  -- a revoke above the mark is owed a rotation, and none is
  obtain ⟨m, hm, hact, hlt⟩ := (hg.secret.host h r hhosting).1 peer (htarget.symm ▸ hin) hlast
  have hseen := hg.kept.seen_all hup hr hpending hcaught m hm
  obtain hle | hin | hin := (hg.settling.host h r hhosting).owed (by simp [hready]) m hm hseen _
    (mem_evictions_of_actionOn hact)
  · exact absurd hlt (not_lt.mpr hle)
  · simp [hsignals] at hin
  · simp [hidle, Rotation.signal] at hin

namespace Sample

open Artel.Sample

/-- Peer 1 is granted `ReadWrite`, handed the secret, and revoked. -/
def revokedMember : List Event :=
  hosted ++ [.receive true] ++ delivered (capability 0 1 (.grant (peer 1) .readWrite)) ++
    [.task 0 true] ++ delivered (capability 0 2 (.revoke (peer 1))) ++
    List.replicate 10 (.rotate {}) ++ [.task 0 true]

theorem current_namespace_withheld_member :
    .handed (peer 1) 0 ∈ (State.after site revokedMember).trace ∧
    ∃ hosted ∈ (State.after site revokedMember).hosting, hosted.1.doc = 1 ∧
      .handed (peer 1) hosted.1.doc ∉ (State.after site revokedMember).trace := by
  have hrun : Along (State.step site) (fun s event => Clean s event ∧ InOrder s event) .initial
      revokedMember := by
    decide +kernel
  have hok : ∀ event ∈ revokedMember, event.rotates = true := by decide +kernel
  have hpending : (State.after site revokedMember).pending = [] := by decide +kernel
  have hhosting : ∃ hosted ∈ (State.after site revokedMember).hosting, hosted.1.doc = 1 ∧
      hosted.1.handled = true ∧
      lastAction site.host (peer 1) hosted.2.log = some (.revoke (peer 1)) := by
    decide +kernel
  obtain ⟨⟨h, r⟩, hin, hdoc, hhandled, hlast⟩ := hhosting
  exact ⟨by decide +kernel, (h, r), hin, hdoc,
    current_namespace_withheld site revokedMember hrun hok h r hin hpending hhandled _ hlast⟩

/-- The revoke overtakes the grant: the revoked peer is handed the new namespace. -/
def overtaken : List Event :=
  hosted ++ [.receive true, .send 0 (capability 0 1 (.grant (peer 1) .readWrite)),
    .send 0 (capability 0 2 (.revoke (peer 1))), .emit 1, .receive true] ++
    List.replicate 10 (.rotate {}) ++ [.emit 0, .receive true, .task 0 true, .task 0 true]

theorem overtaken_revoke_handed :
    (∀ event ∈ overtaken, event.rotates = true) ∧ (State.after site overtaken).pending = [] ∧
    ∃ hosted ∈ (State.after site overtaken).hosting, hosted.1.handled = true ∧
      hosted.1.tasks = [] ∧
      lastAction site.host (peer 1) hosted.2.log = some (.revoke (peer 1)) ∧
      .handed (peer 1) hosted.1.doc ∈ (State.after site overtaken).trace := by
  decide +kernel

end Sample

end Artel.Workspace
